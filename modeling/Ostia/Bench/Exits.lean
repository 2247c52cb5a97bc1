import Ostia.Bench.Cut

/-!
# How the ranks end

A rank that ends well has had the region verified, with every put stored, unless it is a target
that could not be sent the command to verify.  When no operation fails by itself, both ranks end
alike.
-/

namespace Ostia
namespace Bench
namespace Rendezvous

open Foundation
open Framing (Reader frame frames)

variable {s : Setup} {w w' : World}

/-!
## When the region is at rest
-/

/-- The source may have puts on their way. -/
def Source.MayMove : Source -> Prop
  | .measuring _ _ _ => True
  | .exited _ => True
  | _ => False

/-- The source has sent nothing yet. -/
def Source.IsSilent : Source -> Prop
  | .info _ => True
  | .measuring _ _ _ => True
  | _ => False

variable (s) in
/-- Puts are on their way only while nothing was sent, and a count is that of the region. -/
structure Settled (w : World) : Prop where
  quiet : ¬ w.source.MayMove -> w.moving = []
  silent : w.source.IsSilent -> w.up = []
  moving : w.moving ≠ [] -> w.up = []
  counted : forall b, b ∈ w.counted -> b = countOf s s.total w.region ∧ w.moving = []

theorem settled_start : Settled s (World.start s) := by
  constructor
  · intro _
    rfl
  · intro _
    rfl
  · intro _
    rfl
  · intro b hb
    cases hb

/-- A rank moves on; the source sends nothing and has no new puts. -/
theorem Settled.moves (h : Settled s w) {source : Source} {target : Target} {up down : Blob}
    {faulty cut : Bool} (hup : w.up = [] -> up = [])
    (hquiet : ¬ source.MayMove -> w.moving = []) (hsilent : source.IsSilent -> w.up = []) :
    Settled s { w with
      source := source
      target := target
      up := up
      down := down
      faulty := faulty
      cut := cut } where
  quiet := hquiet
  silent := fun hsource => hup (hsilent hsource)
  moving := fun hmoving => hup (h.moving hmoving)
  counted := h.counted

theorem Settled.sourceReceives {k : Nat} (hstreams : Streams s w) (h : Settled s w)
    (hact : w.act s (.sourceReceives k) = some w') : Settled s w' := by
  obtain ⟨_, down, hheard⟩ := hstreams.sourceReceives hact
  cases hheard with
  | moreInfo r next hsource hw =>
      rw [hw]
      apply h.moves id
      · intro _
        exact h.quiet (by rw [hsource]; exact id)
      · intro _
        exact h.silent (by rw [hsource]; trivial)
  | moreReply r next hsource hw =>
      rw [hw]
      apply h.moves id
      · intro _
        exact h.quiet (by rw [hsource]; exact id)
      · exact False.elim
  | info r hsource hw =>
      rw [hw]
      apply h.moves id
      · intro _
        exact h.quiet (by rw [hsource]; exact id)
      · intro _
        exact h.silent (by rw [hsource]; trivial)
  | reply r b hsource hb hw =>
      rw [hw]
      apply h.moves id
      · intro _
        exact h.quiet (by rw [hsource]; exact id)
      · exact False.elim

theorem Settled.sourceSends {k : Nat} (h : Settled s w)
    (hact : w.act s (.sourceSends k) = some w') : Settled s w' := by
  simp only [World.act, Option.bind_eq_bind, Option.bind_eq_some_iff] at hact
  obtain ⟨⟨rest', up⟩, hpush, hw⟩ := hact
  rw [Option.some_inj] at hw
  rw [<- hw]
  have hne := (pushed hpush).1
  have hquiet : w.moving = [] := by
    cases hsource : w.source with
    | verify rest => exact h.quiet (by rw [hsource]; exact id)
    | quit good rest => exact h.quiet (by rw [hsource]; exact id)
    | _ =>
        rw [hsource] at hne
        exact absurd rfl hne
  constructor
  · exact fun _ => hquiet
  · intro hsilent
    cases hsource : w.source with
    | verify rest =>
        rw [hsource] at hsilent
        simp only at hsilent
        split_ifs at hsilent
        · exact absurd hsilent id
        · exact absurd hsilent id
    | quit good rest =>
        rw [hsource] at hsilent
        simp only at hsilent
        split_ifs at hsilent
        · exact absurd hsilent id
        · exact absurd hsilent id
    | _ =>
        rw [hsource] at hne
        exact absurd rfl hne
  · intro hmoving
    exact absurd hquiet hmoving
  · exact h.counted

theorem Settled.sourceSteps {i : Nat} {immediate inProgress : Put -> Bool}
    (hstreams : Streams s w) (h : Settled s w)
    (hact : w.act s (.sourceSteps i immediate inProgress) = some w') : Settled s w' := by
  have hstep : stepStream i immediate inProgress w = some w' := hact
  unfold stepStream at hstep
  cases hsource : w.source with
  | measuring peer streams later =>
      rw [hsource] at hstep
      simp only at hstep
      cases hstream : streams[i]? with
      | none =>
          rw [hstream] at hstep
          cases hstep
      | some stream =>
          rw [hstream] at hstep
          simp only at hstep
          split_ifs at hstep
          rw [Option.some_inj] at hstep
          rw [<- hstep]
          have hup : w.up = [] := h.silent (by rw [hsource]; trivial)
          have hnone := hstreams.counted_eq_nil (by rw [hsource]; exact id)
          constructor
          · intro hmay
            exact absurd trivial hmay
          · exact fun _ => hup
          · exact fun _ => hup
          · intro b hb
            rw [show w.counted = [] from hnone] at hb
            cases hb
  | _ =>
      rw [hsource] at hstep
      cases hstep

theorem Settled.sourceFlushes (h : Settled s w)
    (hact : w.act s .sourceFlushes = some w') : Settled s w' := by
  have hflush : flush s w = some w' := hact
  unfold flush at hflush
  cases hsource : w.source with
  | measuring peer streams later =>
      rw [hsource] at hflush
      simp only at hflush
      split_ifs at hflush with hdone
      rw [Option.some_inj] at hflush
      rw [<- hflush]
      apply h.moves id
      · exact fun _ => hdone.2
      · intro _
        exact h.silent (by rw [hsource]; trivial)
  | _ =>
      rw [hsource] at hflush
      cases hflush

theorem Settled.sourceGivesUp (h : Settled s w) {failed : Source} {faulty cut : Bool}
    (hfail : w.source.fail = some failed) :
    Settled s { w with source := failed, faulty := faulty, cut := cut } := by
  cases Source.fail_eq_some hfail with
  | inl hexited =>
      obtain ⟨exit, rfl⟩ := hexited
      apply h.moves id
      · intro hmay
        exact absurd trivial hmay
      · exact False.elim
  | inr hquits =>
      obtain ⟨hasks, rfl⟩ := hquits
      apply h.moves id
      · intro _
        apply h.quiet
        obtain ⟨rest, hsource⟩ | ⟨r, hsource⟩ := hasks
        · rw [hsource]
          exact id
        · rw [hsource]
          exact id
      · exact False.elim

theorem Settled.targetReceives {k : Nat} (hstreams : Streams s w) (h : Settled s w)
    (hact : w.act s (.targetReceives k) = some w') : Settled s w' := by
  obtain ⟨_, rc, r, up, _, hheard⟩ := hstreams.targetReceives hact
  cases hheard with
  | more next hup hw =>
      rw [hw, List.append_nil]
      apply h.moves
      · intro hnil
        exact absurd hnil hup
      · exact h.quiet
      · exact h.silent
  | verify hnone hasked hup hw =>
      have hquiet : w.moving = [] := by
        by_contra hmoving
        exact hup (h.moving hmoving)
      rw [hw]
      constructor
      · exact fun _ => hquiet
      · intro hsilent
        exact absurd (h.silent hsilent) hup
      · intro hmoving
        exact absurd hquiet hmoving
      · intro b hb
        rw [show w.counted = [] from hnone, List.nil_append, List.mem_singleton] at hb
        exact ⟨hb, hquiet⟩
  | quit hcounted hup hw =>
      rw [hw, List.append_nil]
      apply h.moves
      · intro hnil
        exact absurd hnil hup
      · exact h.quiet
      · exact h.silent

theorem Settled.stores {put : Put} (h : Settled s w)
    (hact : w.act s (.stores put) = some w') : Settled s w' := by
  simp only [World.act] at hact
  split_ifs at hact with hmem
  rw [Option.some_inj] at hact
  rw [<- hact]
  have hmoving : w.moving ≠ [] := List.ne_nil_of_mem hmem
  constructor
  · intro hmay
    exact absurd (h.quiet hmay) hmoving
  · exact h.silent
  · exact fun _ => h.moving hmoving
  · intro b hb
    exact absurd (h.counted b hb).2 hmoving

theorem Settled.act {a : Action} (hstreams : Streams s w) (h : Settled s w)
    (hact : w.act s a = some w') : Settled s w' := by
  cases a with
  | sourceReceives k => exact h.sourceReceives hstreams hact
  | sourceSends k => exact h.sourceSends hact
  | sourceSteps i immediate inProgress => exact h.sourceSteps hstreams hact
  | sourceFlushes => exact h.sourceFlushes hact
  | sourceHangsUp =>
      simp only [World.act] at hact
      split_ifs at hact
      obtain ⟨failed, hfail, rfl⟩ := Option.map_eq_some_iff.mp hact
      exact h.sourceGivesUp hfail
  | sourceFails =>
      simp only [World.act] at hact
      obtain ⟨failed, hfail, rfl⟩ := Option.map_eq_some_iff.mp hact
      exact h.sourceGivesUp hfail
  | sourceDies =>
      simp only [World.act] at hact
      split_ifs at hact
      rw [Option.some_inj] at hact
      rw [<- hact]
      apply h.moves id
      · intro hmay
        exact absurd trivial hmay
      · exact False.elim
  | targetReceives k => exact h.targetReceives hstreams hact
  | targetSends k =>
      simp only [World.act, Option.bind_eq_bind, Option.bind_eq_some_iff] at hact
      obtain ⟨r, _, hw⟩ := hact
      rw [Option.some_inj] at hw
      rw [<- hw]
      exact h.moves id h.quiet h.silent
  | targetHangsUp =>
      simp only [World.act] at hact
      split_ifs at hact
      obtain ⟨failed, _, rfl⟩ := Option.map_eq_some_iff.mp hact
      exact h.moves id h.quiet h.silent
  | targetFails =>
      simp only [World.act] at hact
      obtain ⟨failed, _, rfl⟩ := Option.map_eq_some_iff.mp hact
      exact h.moves id h.quiet h.silent
  | stores put => exact h.stores hact

theorem Reached.settled (h : Reached s w) (hcut : w.cut = false) : Settled s w := by
  revert hcut
  apply Transition.Reached.invariant (P := fun w => w.cut = false -> Settled s w)
    (fun _ => settled_start) _ h
  intro w a w' hreached hsettled _ hact hcut
  have hbefore := cut_before hact hcut
  exact (hsettled hbefore).act (Reached.streams hreached hbefore) hact

/-!
## Exits
-/

/-- The exit of a rank is the one of the counts; a failure may be of its own when an operation
failed. -/
structure Justified (w : World) (exit : Exit) : Prop where
  ok : exit = .ok -> w.counted = [0]
  failed : exit = .failed -> w.faulty = false -> exists b, w.counted = [b] ∧ b ≠ 0

def Source.exit? : Source -> Option Exit
  | .quit good _ => some (if good then .ok else .failed)
  | .exited exit => some exit
  | _ => none

def Target.rc? : Target -> Option Exit
  | .command rc _ => some rc
  | .reply rc _ => some rc
  | _ => none

/-- How the ranks end, or will end. -/
structure Ends (w : World) : Prop where
  rc : forall rc, w.target.rc? = some rc ->
    (rc = .ok <-> forall b, b ∈ w.counted -> b = 0)
  source : forall exit, w.source.exit? = some exit -> Justified w exit
  target : forall exit, w.target = .exited exit -> Justified w exit
  last : w.target.isExited = true -> w.faulty = false -> w.source.exit?.isSome

theorem ends_start : Ends (World.start s) := by
  constructor
  · intro rc hrc
    cases hrc
  · intro exit hexit
    cases hexit
  · intro exit hexit
    cases hexit
  · intro hexited
    cases hexited

theorem Justified.mono {exit : Exit} (h : Justified w exit) (hcounted : w'.counted = w.counted)
    (hfaulty : w'.faulty = false -> w.faulty = false) : Justified w' exit := by
  constructor
  · intro hexit
    rw [hcounted]
    exact h.ok hexit
  · intro hexit hclean
    rw [hcounted]
    exact h.failed hexit (hfaulty hclean)

/-- A rank that fails when an operation has failed needs no reason. -/
theorem justified_failed (h : w.faulty = true) : Justified w .failed := by
  constructor
  · intro hexit
    cases hexit
  · intro _ hclean
    rw [h] at hclean
    cases hclean

/-- The source moves on, with the counts as they are. -/
theorem Ends.sourceMoves (h : Ends w) {source : Source} {moving : List Put} {up down : Blob}
    {faulty cut : Bool} (hfaulty : faulty = false -> w.faulty = false)
    (hsource : forall exit, source.exit? = some exit -> Justified { w with faulty := faulty } exit)
    (hlast : w.source.exit?.isSome -> source.exit?.isSome) :
    Ends { w with
      source := source
      moving := moving
      up := up
      down := down
      faulty := faulty
      cut := cut } where
  rc := h.rc
  source := fun exit hexit => (hsource exit hexit).mono rfl id
  target := fun exit hexit => (h.target exit hexit).mono rfl hfaulty
  last := fun hexited hclean => hlast (h.last hexited (hfaulty hclean))

theorem exit?_begin (peer : Info) (later : List (List Nat)) :
    (begin s peer later).exit? = none := by
  cases later with
  | nil => rfl
  | cons paths later => rfl

theorem Ends.sourceReceives {k : Nat} (hstreams : Streams s w) (h : Ends w)
    (hact : w.act s (.sourceReceives k) = some w') : Ends w' := by
  obtain ⟨_, down, hheard⟩ := hstreams.sourceReceives hact
  cases hheard with
  | moreInfo r next hsource hw =>
      rw [hw]
      apply h.sourceMoves id
      · intro exit hexit
        cases hexit
      · intro hsome
        rw [hsource] at hsome
        cases hsome
  | moreReply r next hsource hw =>
      rw [hw]
      apply h.sourceMoves id
      · intro exit hexit
        cases hexit
      · intro hsome
        rw [hsource] at hsome
        cases hsome
  | info r hsource hw =>
      rw [hw]
      apply h.sourceMoves id
      · intro exit hexit
        rw [exit?_begin] at hexit
        cases hexit
      · intro hsome
        rw [hsource] at hsome
        cases hsome
  | reply r b hsource hb hw =>
      rw [hw]
      apply h.sourceMoves id
      · intro exit hexit
        rw [Source.exit?, Option.some_inj] at hexit
        by_cases hzero : b = 0
        · rw [decide_eq_true hzero, if_pos rfl] at hexit
          rw [<- hexit]
          constructor
          · intro _
            show w.counted = [0]
            rw [hb, hzero]
          · intro hfailed
            cases hfailed
        · rw [decide_eq_false hzero, if_neg Bool.false_ne_true] at hexit
          rw [<- hexit]
          constructor
          · intro hok
            cases hok
          · intro _ _
            exact ⟨b, hb, hzero⟩
      · intro _
        rfl

theorem Ends.sourceSends {k : Nat} (h : Ends w)
    (hact : w.act s (.sourceSends k) = some w') : Ends w' := by
  simp only [World.act, Option.bind_eq_bind, Option.bind_eq_some_iff] at hact
  obtain ⟨⟨rest', up⟩, hpush, hw⟩ := hact
  rw [Option.some_inj] at hw
  rw [<- hw]
  have hne := (pushed hpush).1
  cases hsource : w.source with
  | verify rest =>
      apply h.sourceMoves id
      · intro exit hexit
        simp only at hexit
        split_ifs at hexit
        · cases hexit
        · cases hexit
      · intro hsome
        rw [hsource] at hsome
        cases hsome
  | quit good rest =>
      apply h.sourceMoves id
      · intro exit hexit
        apply h.source
        rw [hsource]
        simp only at hexit
        split_ifs at hexit
        · exact hexit
        · exact hexit
      · intro _
        simp only
        split_ifs
        · rfl
        · rfl
  | _ =>
      rw [hsource] at hne
      exact absurd rfl hne

theorem Ends.sourceSteps {i : Nat} {immediate inProgress : Put -> Bool} (h : Ends w)
    (hact : w.act s (.sourceSteps i immediate inProgress) = some w') : Ends w' := by
  have hstep : stepStream i immediate inProgress w = some w' := hact
  unfold stepStream at hstep
  cases hsource : w.source with
  | measuring peer streams later =>
      rw [hsource] at hstep
      simp only at hstep
      cases hstream : streams[i]? with
      | none =>
          rw [hstream] at hstep
          cases hstep
      | some stream =>
          rw [hstream] at hstep
          simp only at hstep
          split_ifs at hstep
          rw [Option.some_inj] at hstep
          rw [<- hstep]
          apply h.sourceMoves id
          · intro exit hexit
            cases hexit
          · intro hsome
            rw [hsource] at hsome
            cases hsome
  | _ =>
      rw [hsource] at hstep
      cases hstep

theorem Ends.sourceFlushes (h : Ends w)
    (hact : w.act s .sourceFlushes = some w') : Ends w' := by
  have hflush : flush s w = some w' := hact
  unfold flush at hflush
  cases hsource : w.source with
  | measuring peer streams later =>
      rw [hsource] at hflush
      simp only at hflush
      split_ifs at hflush with hdone
      rw [Option.some_inj] at hflush
      rw [<- hflush]
      apply h.sourceMoves id
      · intro exit hexit
        rw [exit?_begin] at hexit
        cases hexit
      · intro hsome
        rw [hsource] at hsome
        cases hsome
  | _ =>
      rw [hsource] at hflush
      cases hflush

/-- A failed operation. -/
theorem Ends.sourceFails (h : Ends w) {failed : Source} {cut : Bool}
    (hfail : w.source.fail = some failed) :
    Ends { w with source := failed, faulty := true, cut := cut } := by
  have hfaulty : ({ w with faulty := true } : World).faulty = true := rfl
  apply h.sourceMoves
  · intro hclean
    cases hclean
  · intro exit hexit
    cases hsource : w.source with
    | quit good rest =>
        rw [hsource] at hfail
        cases hfail
        have hjustified := h.source exit (by rw [hsource]; exact hexit)
        apply hjustified.mono
        · rfl
        · intro hclean
          cases hclean
    | reply r =>
        rw [hsource] at hfail
        cases hfail
        cases hexit
        exact justified_failed hfaulty
    | exited exit =>
        rw [hsource] at hfail
        cases hfail
    | crashed =>
        rw [hsource] at hfail
        cases hfail
    | _ =>
        rw [hsource] at hfail
        cases hfail
        cases hexit
        exact justified_failed hfaulty
  · intro _
    cases Source.fail_eq_some hfail with
    | inl hexited =>
        obtain ⟨exit, rfl⟩ := hexited
        rfl
    | inr hquits =>
        rw [hquits.2]
        rfl

/-- The source finds the channel closed: the target has failed. -/
theorem Ends.faulty_of_targetExited (h : Ends w) (hreader : w.source.reader?.isSome)
    (hexited : w.target.isExited) : w.faulty = true := by
  by_contra hclean
  have hlast := h.last hexited (Bool.eq_false_iff.mpr hclean)
  cases hsource : w.source with
  | quit good rest =>
      rw [hsource] at hreader
      cases hreader
  | exited exit =>
      rw [hsource] at hreader
      cases hreader
  | _ =>
      rw [hsource] at hlast
      cases hlast

theorem Ends.sourceHangsUp (h : Ends w)
    (hact : w.act s .sourceHangsUp = some w') : Ends w' := by
  simp only [World.act] at hact
  split_ifs at hact with hgone
  obtain ⟨failed, hfail, rfl⟩ := Option.map_eq_some_iff.mp hact
  have hfails := @Ends.sourceFails _ h failed w.cut hfail
  rw [<- h.faulty_of_targetExited hgone.1 hgone.2.1] at hfails
  exact hfails

/-- The target exits with its code, when it was asked to quit. -/
theorem Ends.quit (h : Ends w) (hstreams : Streams s w) {rc : Exit} {r : Reader UInt8} {up : Blob}
    (htarget : w.target = .command rc r) (hcounted : w.counted ≠ []) (hup : w.up ≠ []) :
    Ends { w with target := .exited rc, up := up } := by
  obtain ⟨b, hb⟩ : exists b, w.counted = [b] := List.length_eq_one_iff.mp (by
    have hle := hstreams.counted
    have hpos := List.length_pos_iff.mpr hcounted
    omega)
  have hrc := h.rc rc (by rw [htarget]; rfl)
  rw [hb] at hrc
  constructor
  · intro rc hrc
    cases hrc
  · exact fun exit hexit => (h.source exit hexit).mono rfl id
  · intro exit hexit
    cases hexit
    constructor
    · intro hok
      show w.counted = [0]
      rw [hb, hrc.mp hok b List.mem_cons_self]
    · intro hfailed _
      refine ⟨b, hb, ?_⟩
      intro hzero
      have hok : rc = .ok := hrc.mpr (by
        intro c hc
        rw [List.mem_singleton.mp hc, hzero])
      rw [hok] at hfailed
      cases hfailed
  · intro _ hclean
    have hasked := hstreams.asked hcounted
    cases hsource : w.source with
    | quit good rest => rfl
    | exited exit => rfl
    | reply r0 =>
        -- The source would still have to ask, so nothing would be on its way.
        obtain ⟨z, hstream, hz⟩ := hstreams.up (by rw [htarget]; rfl)
        have hahead := hz (.inr hclean)
        rw [hsource] at hahead
        have hquit : z = frame u64 quitCommand := hahead
        rw [hquit, hb] at hstream
        have hone : frames u64 ((script s).drop [b].length) = frame u64 quitCommand :=
          List.append_nil _
        rw [hone] at hstream
        have hlength := congrArg List.length hstream
        rw [List.length_append, List.length_append] at hlength
        have hpos := List.length_pos_iff.mpr hup
        omega
    | _ =>
        rw [hsource] at hasked
        exact absurd hasked id

theorem Ends.targetReceives {k : Nat} (hstreams : Streams s w) (h : Ends w)
    (hact : w.act s (.targetReceives k) = some w') : Ends w' := by
  obtain ⟨_, rc, r, up, htarget, hheard⟩ := hstreams.targetReceives hact
  have hrc := h.rc rc (by rw [htarget]; rfl)
  cases hheard with
  | more next hup hw =>
      rw [hw, List.append_nil]
      constructor
      · intro rc' hrc'
        cases hrc'
        exact hrc
      · exact fun exit hexit => (h.source exit hexit).mono rfl id
      · intro exit hexit
        cases hexit
      · intro hexited
        cases hexited
  | verify hnone hasked hup hw =>
      rw [hw]
      rw [hnone] at hrc
      have hok : rc = .ok := hrc.mpr fun b hb => by cases hb
      constructor
      · intro rc' hrc'
        cases hrc'
        show _ <-> forall b, b ∈ w.counted ++ [countOf s s.total w.region] -> b = 0
        rw [hnone, List.nil_append, hok]
        split_ifs with hbad
        · constructor
          · intro hfailed
            cases hfailed
          · intro hall
            exact absurd (hall _ List.mem_cons_self) hbad
        · constructor
          · intro _ b hb
            rw [List.mem_singleton.mp hb]
            exact not_not.mp hbad
          · intro _
            rfl
      · intro exit hexit
        have hjustified := h.source exit hexit
        constructor
        · intro hexitOk
          have hzero := hjustified.ok hexitOk
          rw [hnone] at hzero
          cases hzero
        · intro hfailed hclean
          obtain ⟨b, hb, _⟩ := hjustified.failed hfailed hclean
          rw [hnone] at hb
          cases hb
      · intro exit hexit
        cases hexit
      · intro hexited
        cases hexited
  | quit hcounted hup hw =>
      rw [hw, List.append_nil]
      exact h.quit hstreams htarget hcounted hup

theorem Ends.targetSends {k : Nat} (hstreams : Streams s w) (h : Ends w)
    (hact : w.act s (.targetSends k) = some w') : Ends w' := by
  simp only [World.act, Option.bind_eq_bind, Option.bind_eq_some_iff] at hact
  obtain ⟨⟨rest', down⟩, hpush, hw⟩ := hact
  rw [Option.some_inj] at hw
  rw [<- hw]
  have hne := (pushed hpush).1
  have hkeeps : forall target : Target, target.isExited = false ->
      (forall rc, target.rc? = some rc -> (rc = .ok <-> forall b, b ∈ w.counted -> b = 0)) ->
      Ends { w with target := target, down := down } := by
    intro target hlive hrc
    constructor
    · exact hrc
    · exact fun exit hexit => (h.source exit hexit).mono rfl id
    · intro exit hexit
      rw [show target = .exited exit from hexit] at hlive
      cases hlive
    · intro hexited
      rw [show target.isExited = false from hlive] at hexited
      cases hexited
  cases htarget : w.target with
  | info rest =>
      show Ends { w with target := if rest' = [] then _ else _, down := down }
      split_ifs
      · apply hkeeps
        · rfl
        · intro rc hrc
          cases hrc
          rw [hstreams.described rest htarget]
          constructor
          · intro _ b hb
            cases hb
          · intro _
            rfl
      · apply hkeeps
        · rfl
        · intro rc hrc
          cases hrc
  | reply rc rest =>
      have hrc := h.rc rc (by rw [htarget]; rfl)
      show Ends { w with target := if rest' = [] then _ else _, down := down }
      split_ifs
      · apply hkeeps
        · rfl
        · intro rc' hrc'
          cases hrc'
          exact hrc
      · apply hkeeps
        · rfl
        · intro rc' hrc'
          cases hrc'
          exact hrc
  | _ =>
      rw [htarget] at hne
      exact absurd rfl hne

theorem Ends.targetFails (h : Ends w) :
    Ends { w with target := .exited .failed, faulty := true } := by
  have hfaulty : ({ w with target := .exited .failed, faulty := true } : World).faulty = true := rfl
  constructor
  · intro rc hrc
    cases hrc
  · intro exit hexit
    apply (h.source exit hexit).mono
    · rfl
    · intro hclean
      cases hclean
  · intro exit hexit
    cases hexit
    exact justified_failed hfaulty
  · intro _ hclean
    cases hclean

/-- The target finds the channel closed: the source has failed. -/
theorem Ends.targetHangsUp (hstreams : Streams s w) (h : Ends w)
    (hact : w.act s .targetHangsUp = some w') : Ends w' := by
  simp only [World.act] at hact
  split_ifs at hact with hgone
  obtain ⟨failed, hfail, rfl⟩ := Option.map_eq_some_iff.mp hact
  obtain ⟨r, hr⟩ := Option.isSome_iff_exists.mp hgone.1
  have hfaulty : w.faulty = true := by
    by_contra hclean
    have hlive : w.target.isExited = false := by
      cases htarget : w.target with
      | exited exit =>
          rw [htarget] at hr
          cases hr
      | _ => rfl
    obtain ⟨z, hstream, hz⟩ := hstreams.up hlive
    have hahead := hz (.inr (Bool.eq_false_iff.mpr hclean))
    have hend : w.source.ahead s = [] := by
      have hexited := hgone.2.1
      cases hsource : w.source with
      | exited exit => rfl
      | _ =>
          rw [hsource] at hexited
          cases hexited
    have hheld : w.target.held = r.held u64 := by
      unfold Target.held
      rw [hr]
      rfl
    rw [hahead, hend, hgone.2.2, List.append_nil, List.append_nil, hheld] at hstream
    have hnil := Framing.eq_nil_of_held (hstreams.targetOpen r hr)
      (fun m hm => length_script (List.mem_of_mem_drop hm)) hstream
    have hle := hstreams.counted
    have hlength := congrArg List.length hnil
    rw [List.length_drop] at hlength
    have hscript : (script s).length = 2 := rfl
    rw [List.length_nil] at hlength
    omega
  rw [Target.fail_eq_some hfail]
  have hfails := h.targetFails
  rw [<- hfaulty] at hfails
  exact hfails

theorem Ends.stores {put : Put} (h : Ends w)
    (hact : w.act s (.stores put) = some w') : Ends w' := by
  simp only [World.act] at hact
  split_ifs at hact
  rw [Option.some_inj] at hact
  rw [<- hact]
  constructor
  · exact h.rc
  · exact fun exit hexit => (h.source exit hexit).mono rfl id
  · exact fun exit hexit => (h.target exit hexit).mono rfl id
  · exact h.last

theorem Ends.act {a : Action} (hstreams : Streams s w) (h : Ends w)
    (hact : w.act s a = some w') : Ends w' := by
  cases a with
  | sourceReceives k => exact h.sourceReceives hstreams hact
  | sourceSends k => exact h.sourceSends hact
  | sourceSteps i immediate inProgress => exact h.sourceSteps hact
  | sourceFlushes => exact h.sourceFlushes hact
  | sourceHangsUp => exact h.sourceHangsUp hact
  | sourceFails =>
      simp only [World.act] at hact
      obtain ⟨failed, hfail, rfl⟩ := Option.map_eq_some_iff.mp hact
      exact h.sourceFails hfail
  | sourceDies =>
      simp only [World.act] at hact
      split_ifs at hact
      rw [Option.some_inj] at hact
      rw [<- hact]
      apply h.sourceMoves
      · intro hclean
        cases hclean
      · intro exit hexit
        cases hexit
        exact justified_failed rfl
      · intro _
        rfl
  | targetReceives k => exact h.targetReceives hstreams hact
  | targetSends k => exact h.targetSends hstreams hact
  | targetHangsUp => exact h.targetHangsUp hstreams hact
  | targetFails =>
      simp only [World.act] at hact
      obtain ⟨failed, hfail, rfl⟩ := Option.map_eq_some_iff.mp hact
      rw [Target.fail_eq_some hfail]
      exact h.targetFails
  | stores put => exact h.stores hact

theorem Reached.ends (h : Reached s w) (hcut : w.cut = false) : Ends w := by
  revert hcut
  apply Transition.Reached.invariant (P := fun w => w.cut = false -> Ends w)
    (fun _ => ends_start) _ h
  intro w a w' hreached hends _ hact hcut
  have hbefore := cut_before hact hcut
  exact (hends hbefore).act (Reached.streams hreached hbefore) hact

/-- A command is cut off by a failure only. -/
theorem Reached.cut_eq_false (h : Reached s w) (hclean : w.faulty = false) : w.cut = false := by
  cases hcut : w.cut with
  | false => rfl
  | true =>
      rw [(h.streams_or_cut.2 hcut).faulty] at hclean
      cases hclean

/-- A source whose command was cut off ends with failure. -/
theorem Cut.exit?_eq (h : Cut w) : w.source.exit? = some .failed := by
  cases h.source with
  | inl hquits =>
      obtain ⟨rest, _, hsource⟩ := hquits
      rw [hsource]
      rfl
  | inr hexited =>
      rw [hexited]
      rfl

theorem Reached.verified (h : Reached s w) (hcut : w.cut = false) {exit : Exit}
    (hexit : Justified w exit) (hok : exit = .ok) :
    w.moving = [] ∧ countOf s s.total w.region = 0 := by
  have hcounted := hexit.ok hok
  obtain ⟨hcount, hmoving⟩ :=
    (h.settled hcut).counted 0 (by rw [hcounted]; exact List.mem_cons_self)
  exact ⟨hmoving, hcount.symm⟩

/-- A rank that ends well has had the region verified, whatever else failed: no put is on its
way, and no byte of the region differs from the pattern.  Only a target that could not be sent the
command to verify ends well without, and then the source ends with failure. -/
theorem verified_of_ok (h : Reached s w) :
    (w.source = .exited .ok -> w.moving = [] ∧ countOf s s.total w.region = 0) ∧
    (w.target = .exited .ok -> (w.moving = [] ∧ countOf s s.total w.region = 0) ∨
      w.cut = true ∧ w.source.exit? = some .failed) := by
  cases hcut : w.cut with
  | true =>
      have hexit := (h.streams_or_cut.2 hcut).exit?_eq
      refine ⟨fun hsource => ?_, fun _ => .inr ⟨rfl, hexit⟩⟩
      rw [hsource] at hexit
      cases hexit
  | false =>
      have hends := h.ends hcut
      refine ⟨fun hsource => ?_, fun htarget => .inl ?_⟩
      · exact h.verified hcut (hends.source .ok (by rw [hsource]; rfl)) rfl
      · exact h.verified hcut (hends.target .ok htarget) rfl

/-- The source fails in the middle of the command to quit, after the reply. -/
theorem exists_rails_quit_fails : exists w, Reached rails w ∧ w.source = .exited .ok ∧
    w.target = .exited .failed ∧ w.faulty = true := by
  have hrun : exists w, Transition.replay (World.act rails) (World.start rails)
      (railsTransfers ++ railsVerify ++ [.sourceSends 3, .sourceFails, .targetReceives 3,
        .targetHangsUp]) = some w ∧ w.source = .exited .ok ∧
      w.target = .exited .failed ∧ w.faulty = true := ⟨_, rfl, rfl, rfl, rfl⟩
  obtain ⟨w, hreplay, hends⟩ := hrun
  exact ⟨w, rails_reached hreplay, hends⟩

/-- The command to verify cannot be sent, and the target hears only the one to quit. -/
theorem exists_rails_cut : exists w, Reached rails w ∧ w.source = .exited .failed ∧
    w.target = .exited .ok ∧ w.counted = [] ∧ w.cut = true := by
  have hrun : exists w, Transition.replay (World.act rails) (World.start rails)
      (railsTransfers ++ .sourceFails :: railsQuit) = some w ∧ w.source = .exited .failed ∧
      w.target = .exited .ok ∧ w.counted = [] ∧ w.cut = true := ⟨_, rfl, rfl, rfl, rfl, rfl⟩
  obtain ⟨w, hreplay, hends⟩ := hrun
  exact ⟨w, rails_reached hreplay, hends⟩

theorem verified_of_ok_rails :
    (exists w, Reached rails w ∧ w.target = .exited .failed ∧ w.source = .exited .ok ∧
      w.moving = [] ∧ countOf rails rails.total w.region = 0) ∧
    exists w, Reached rails w ∧ w.target = .exited .ok ∧ w.counted = [] ∧
      ((w.moving = [] ∧ countOf rails rails.total w.region = 0) ∨
        w.cut = true ∧ w.source.exit? = some .failed) := by
  obtain ⟨w, hreached, hsource, htarget, _⟩ := exists_rails_quit_fails
  obtain ⟨w', hreached', _, htarget', hcounted', _⟩ := exists_rails_cut
  exact ⟨⟨w, hreached, htarget, hsource, (verified_of_ok hreached).1 hsource⟩,
    w', hreached', htarget', hcounted', (verified_of_ok hreached').2 htarget'⟩

/-- When no operation failed, the exit of a rank is the one of the count. -/
theorem Reached.ok_iff (h : Reached s w) (hclean : w.faulty = false) {exit : Exit}
    (hexit : Justified w exit) : exit = .ok <-> countOf s s.total w.region = 0 := by
  have hcut := h.cut_eq_false hclean
  cases hcase : exit with
  | ok => exact iff_of_true rfl (h.verified hcut hexit hcase).2
  | failed =>
      obtain ⟨c, hc, hne⟩ := hexit.failed hcase hclean
      have hcount := ((h.settled hcut).counted c (by rw [hc]; exact List.mem_cons_self)).1
      rw [<- hcount]
      apply iff_of_false _ hne
      intro hexit
      cases hexit

theorem exit_unique {P : Prop} {a b : Exit} (ha : a = .ok <-> P) (hb : b = .ok <-> P) : a = b := by
  cases a with
  | ok => exact (hb.mpr (ha.mp rfl)).symm
  | failed =>
      cases b with
      | ok => exact ha.mpr (hb.mp rfl)
      | failed => rfl

/-- When no operation failed, the ranks end alike: well exactly when nothing differs. -/
theorem exits_agree (h : Reached s w) (hclean : w.faulty = false) {a b : Exit}
    (hsource : w.source = .exited a) (htarget : w.target = .exited b) :
    a = b ∧ (a = .ok <-> countOf s s.total w.region = 0) := by
  have hends := h.ends (h.cut_eq_false hclean)
  have ha := h.ok_iff hclean (hends.source a (by rw [hsource]; rfl))
  have hb := h.ok_iff hclean (hends.target b htarget)
  exact ⟨exit_unique ha hb, ha⟩

theorem exits_agree_rails : exists w, Reached rails w ∧ w.faulty = false ∧
    w.source = .exited .ok ∧ w.target = .exited .ok ∧
    (Exit.ok = Exit.ok ∧ (Exit.ok = .ok <-> countOf rails rails.total w.region = 0)) := by
  obtain ⟨w, hreached, hsource, htarget, hclean⟩ := exists_rails
  exact ⟨w, hreached, hclean, hsource, htarget, exits_agree hreached hclean hsource htarget⟩

end Rendezvous
end Bench
end Ostia

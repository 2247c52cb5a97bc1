import Ostia.Bench.Agreement

/-!
# A command that was cut off

When the send of the command to verify fails, the source still asks the target to quit, behind
whatever part of the command was sent.  The target then hears what the pieces make: the command to
quit alone, when nothing was sent before it, or a command that no source meant.  Behind part of a
length the target waits for more bytes than are to come; the code may already fail to allocate them.
-/

namespace Ostia
namespace Bench
namespace Rendezvous

open Foundation
open Framing (Reader frame)

variable {s : Setup}

section Steps

variable {w w' : World}

/-- A target that can go on, or that has read past an end: its reader waits for more, and what it
sends is not over. -/
def Target.Going (target : Target) : Prop :=
  (forall r, target.reader? = some r -> r.Open u64) ∧ (target = .crashed ∨ target.Busy)

/-- Once the send of the command to verify has failed, the source ends with failure, and the
target hears whatever the pieces make. -/
structure Cut (w : World) : Prop where
  faulty : w.faulty = true
  source : (exists rest, rest ≠ [] ∧ w.source = .quit false rest) ∨ w.source = .exited .failed
  target : w.target.Going

/-- The send of the command to verify fails. -/
theorem Streams.cut (h : Streams s w) (hcut : w.cut = false)
    (hact : w.act s .sourceFails = some w') (hcut' : w'.cut = true) : Cut w' := by
  simp only [World.act] at hact
  obtain ⟨failed, hfail, rfl⟩ := Option.map_eq_some_iff.mp hact
  cases hsource : w.source with
  | verify rest =>
      rw [hsource] at hfail
      cases hfail
      exact ⟨rfl, .inl ⟨_, Framing.frame_ne_nil u64 _, rfl⟩, h.targetOpen, .inr h.targetBusy⟩
  | _ =>
      rw [hcut, hsource] at hcut'
      cases hcut'

theorem going_of_reader? {target : Target} (h : target.reader? = none)
    (hbusy : target = .crashed ∨ target.Busy) : target.Going := by
  refine ⟨fun r hr => ?_, hbusy⟩
  rw [h] at hr
  cases hr

theorem going_command {rc : Exit} {r : Reader UInt8} (hopen : r.Open u64) :
    (Target.command rc r).Going := by
  refine ⟨fun r' hr => ?_, .inr trivial⟩
  cases hr
  exact hopen

theorem going_exited (exit : Exit) : (Target.exited exit).Going :=
  going_of_reader? rfl (.inr trivial)

theorem going_reply (rc : Exit) {rest : Blob} (h : rest ≠ []) : (Target.reply rc rest).Going :=
  going_of_reader? rfl (.inr h)

/-- Whatever the command, the target goes on. -/
theorem going_heardCommand (rc : Exit) (region : Memory) (blob : Blob) :
    (heardCommand s rc region blob).1.Going := by
  have hcrashed : Target.crashed.Going := going_of_reader? rfl (.inl rfl)
  cases blob with
  | nil => exact going_exited rc
  | cons c rest =>
      rw [heardCommand]
      split_ifs
      · exact going_exited rc
      · cases readU64 rest with
        | none => exact hcrashed
        | some r =>
            dsimp only
            split_ifs
            · exact hcrashed
            · exact going_reply _ (Framing.frame_ne_nil u64 _)
            · exact going_reply _ (Framing.frame_ne_nil u64 _)
      · exact going_command (Framing.open_start u64)

/-- The target moves on, while the source is as it was. -/
theorem Cut.targetMoves (h : Cut w) {target : Target} (htarget : target.Going)
    (hsource : w'.source = w.source) (hfaulty : w.faulty = true -> w'.faulty = true)
    (hnext : w'.target = target) : Cut w' := by
  refine ⟨hfaulty h.faulty, ?_, hnext ▸ htarget⟩
  rw [hsource]
  exact h.source

/-- A source that was cut off listens to nothing. -/
theorem Cut.reader?_eq_none (h : Cut w) : w.source.reader? = none := by
  cases h.source with
  | inl hquits =>
      obtain ⟨rest, _, hsource⟩ := hquits
      rw [hsource]
      rfl
  | inr hexited =>
      rw [hexited]
      rfl

theorem Cut.targetReceives {k : Nat} (h : Cut w) (hact : w.act s (.targetReceives k) = some w') :
    Cut w' := by
  simp only [World.act, Option.bind_eq_bind, Option.bind_eq_some_iff] at hact
  obtain ⟨reader, hreader, ⟨result, up⟩, hpull, hw⟩ := hact
  rw [Option.some_inj] at hw
  rw [<- hw]
  obtain ⟨_, _, hresult⟩ := Framing.pulled_any (h.target.1 reader hreader) hpull
  cases htarget : w.target with
  | command rc r0 =>
      refine h.targetMoves ?_ rfl id rfl
      rcases hresult with ⟨next, rfl, hopen, _⟩ | ⟨m, rfl, _⟩
      · exact going_command hopen
      · exact going_heardCommand rc w.region m
  | _ =>
      rw [htarget] at hreader
      cases hreader

theorem Cut.targetSends {k : Nat} (h : Cut w) (hact : w.act s (.targetSends k) = some w') :
    Cut w' := by
  simp only [World.act, Option.bind_eq_bind, Option.bind_eq_some_iff] at hact
  obtain ⟨⟨rest', down⟩, hpush, hw⟩ := hact
  rw [Option.some_inj] at hw
  rw [<- hw]
  have hne := (pushed hpush).1
  refine h.targetMoves ?_ rfl id rfl
  cases htarget : w.target with
  | info rest =>
      dsimp only
      split_ifs with hempty
      · exact going_command (Framing.open_start u64)
      · exact going_of_reader? rfl (.inr hempty)
  | reply rc rest =>
      dsimp only
      split_ifs with hempty
      · exact going_command (Framing.open_start u64)
      · exact going_reply rc hempty
  | _ =>
      rw [htarget] at hne
      exact absurd rfl hne

theorem Cut.sourceSends {k : Nat} (h : Cut w) (hact : w.act s (.sourceSends k) = some w') :
    Cut w' := by
  simp only [World.act, Option.bind_eq_bind, Option.bind_eq_some_iff] at hact
  obtain ⟨⟨rest', up⟩, hpush, hw⟩ := hact
  rw [Option.some_inj] at hw
  rw [<- hw]
  rcases h.source with ⟨rest, _, hsource⟩ | hexited
  · refine ⟨h.faulty, ?_, h.target⟩
    rw [hsource]
    dsimp only
    split_ifs with hempty
    · exact .inr rfl
    · exact .inl ⟨rest', hempty, rfl⟩
  · have hne := (pushed hpush).1
    rw [hexited] at hne
    exact absurd rfl hne

theorem Cut.act {a : Action} (h : Cut w) (hact : w.act s a = some w') : Cut w' := by
  cases a with
  | sourceReceives k =>
      simp only [World.act, Option.bind_eq_bind, Option.bind_eq_some_iff] at hact
      obtain ⟨reader, hreader, _⟩ := hact
      rw [h.reader?_eq_none] at hreader
      cases hreader
  | sourceSends k => exact h.sourceSends hact
  | sourceSteps i immediate inProgress =>
      have hstep : stepStream i immediate inProgress w = some w' := hact
      unfold stepStream at hstep
      rcases h.source with ⟨rest, _, hsource⟩ | hsource
      · rw [hsource] at hstep
        cases hstep
      · rw [hsource] at hstep
        cases hstep
  | sourceFlushes =>
      have hflush : flush s w = some w' := hact
      unfold flush at hflush
      rcases h.source with ⟨rest, _, hsource⟩ | hsource
      · rw [hsource] at hflush
        cases hflush
      · rw [hsource] at hflush
        cases hflush
  | sourceHangsUp =>
      simp only [World.act] at hact
      split_ifs at hact with hgone
      rw [h.reader?_eq_none] at hgone
      cases hgone.1
  | sourceFails =>
      simp only [World.act] at hact
      obtain ⟨failed, hfail, rfl⟩ := Option.map_eq_some_iff.mp hact
      rcases h.source with ⟨rest, _, hsource⟩ | hsource
      · rw [hsource] at hfail
        cases hfail
        exact ⟨rfl, .inr rfl, h.target⟩
      · rw [hsource] at hfail
        cases hfail
  | sourceDies =>
      simp only [World.act] at hact
      split_ifs at hact
      rw [Option.some_inj] at hact
      rw [<- hact]
      exact ⟨rfl, .inr rfl, h.target⟩
  | targetReceives k => exact h.targetReceives hact
  | targetSends k => exact h.targetSends hact
  | targetHangsUp =>
      simp only [World.act] at hact
      split_ifs at hact
      obtain ⟨failed, hfail, rfl⟩ := Option.map_eq_some_iff.mp hact
      rw [Target.fail_eq_some hfail]
      exact h.targetMoves (going_exited .failed) rfl id rfl
  | targetFails =>
      simp only [World.act] at hact
      obtain ⟨failed, hfail, rfl⟩ := Option.map_eq_some_iff.mp hact
      rw [Target.fail_eq_some hfail]
      exact h.targetMoves (going_exited .failed) rfl (fun _ => rfl) rfl
  | stores put =>
      simp only [World.act] at hact
      split_ifs at hact
      rw [Option.some_inj] at hact
      rw [<- hact]
      exact h.targetMoves h.target rfl id rfl

/-- Only a failed operation of the source cuts a command off. -/
theorem cut_of_act {a : Action} (hact : w.act s a = some w') (ha : a ≠ .sourceFails) :
    w'.cut = w.cut := by
  cases a with
  | sourceFails => exact absurd rfl ha
  | sourceSteps i immediate inProgress =>
      have hstep : stepStream i immediate inProgress w = some w' := hact
      unfold stepStream at hstep
      split at hstep
      · split at hstep
        · cases hstep
        · split_ifs at hstep
          cases hstep
          rfl
      · cases hstep
  | sourceFlushes =>
      have hflush : flush s w = some w' := hact
      unfold flush at hflush
      split at hflush
      · split_ifs at hflush
        cases hflush
        rfl
      · cases hflush
  | sourceReceives k | sourceSends k | targetReceives k | targetSends k =>
      simp only [World.act, Option.bind_eq_bind, Option.bind_eq_some_iff, Option.some_inj] at hact
      obtain ⟨_, _, hw⟩ := hact
      first
      | rw [<- hw]
      | obtain ⟨_, _, hw⟩ := hw
        rw [<- hw]
  | sourceHangsUp | targetHangsUp =>
      simp only [World.act] at hact
      split_ifs at hact
      obtain ⟨_, _, rfl⟩ := Option.map_eq_some_iff.mp hact
      rfl
  | targetFails =>
      simp only [World.act] at hact
      obtain ⟨_, _, rfl⟩ := Option.map_eq_some_iff.mp hact
      rfl
  | sourceDies | stores put =>
      simp only [World.act] at hact
      split_ifs at hact
      cases hact
      rfl

/-- No step brings a command back that was cut off. -/
theorem cut_before {a : Action} (hact : w.act s a = some w') (hcut : w'.cut = false) :
    w.cut = false := by
  by_cases ha : a = .sourceFails
  · rw [ha] at hact
    simp only [World.act] at hact
    obtain ⟨_, _, rfl⟩ := Option.map_eq_some_iff.mp hact
    exact (Bool.or_eq_false_iff.mp hcut).1
  · rw [<- cut_of_act hact ha]
    exact hcut

end Steps

/-- The bytes on their way are those of the messages, until a command is cut off. -/
theorem Reached.streams_or_cut {w : World} (h : Reached s w) :
    (w.cut = false -> Streams s w) ∧ (w.cut = true -> Cut w) := by
  apply Transition.Reached.invariant
    (P := fun w => (w.cut = false -> Streams s w) ∧ (w.cut = true -> Cut w)) _ _ h
  · exact ⟨fun _ => streams_start, fun hcut => by cases hcut⟩
  · intro w a w' _ hinv _ hact
    refine ⟨fun hcut => (hinv.1 (cut_before hact hcut)).act hact hcut, fun hcut => ?_⟩
    cases hbefore : w.cut with
    | true => exact (hinv.2 hbefore).act hact
    | false =>
        have ha : a = .sourceFails := by
          by_contra ha
          rw [cut_of_act hact ha, hbefore] at hcut
          cases hcut
        rw [ha] at hact
        exact (hinv.1 hbefore).cut hbefore hact hcut

theorem Reached.streams {w : World} (h : Reached s w) (hcut : w.cut = false) : Streams s w :=
  h.streams_or_cut.1 hcut

/-- No rank reads past the end of a message, or of the region, unless a command was cut off. -/
theorem Reached.not_crashed {w : World} (h : Reached s w) (hcut : w.cut = false) :
    w.source ≠ .crashed ∧ w.target ≠ .crashed := by
  constructor
  · intro hcrashed
    have hbusy := (h.streams hcut).sourceBusy
    rw [hcrashed] at hbusy
    exact hbusy
  · intro hcrashed
    have hbusy := (h.streams hcut).targetBusy
    rw [hcrashed] at hbusy
    exact hbusy

end Rendezvous
end Bench
end Ostia

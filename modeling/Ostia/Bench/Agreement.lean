import Ostia.Bench.Rendezvous

/-!
# The ranks agree

Whatever the sizes of the pieces and the order of the steps, the bytes on their way, together with
what the reader holds and what the sender has left, are the frames of the messages that the reader
has still to hear.
-/

namespace Ostia
namespace Bench
namespace Rendezvous

open Foundation
open Framing (Reader frame frames frames_cons frames_nil)

variable (s : Setup)

/-!
## What is still to come
-/

/-- The commands of the source, in order. -/
def script : List Blob := [verifyCommand s, quitCommand]

/-- What the source still sends, if nothing fails. -/
def Source.ahead : Source -> Blob
  | .info _ => frames u64 (script s)
  | .measuring _ _ _ => frames u64 (script s)
  | .verify rest => rest ++ frame u64 quitCommand
  | .reply _ => frame u64 quitCommand
  | .quit _ rest => rest
  | .exited _ => []
  | .crashed => []

def Source.held (source : Source) : Blob := (source.reader?.map (Reader.held u64)).getD []

def Target.held (target : Target) : Blob := (target.reader?.map (Reader.held u64)).getD []

/-- The messages of the target that the source has heard, while it listens. -/
def Source.heardCount : Source -> Option Nat
  | .info _ => some 0
  | .measuring _ _ _ => some 1
  | .verify _ => some 1
  | .reply _ => some 1
  | _ => none

/-- The source has sent the command to verify. -/
def Source.HasAsked : Source -> Prop
  | .reply _ => True
  | .quit _ _ => True
  | .exited _ => True
  | _ => False

/-- A rank that sends has something left to send. -/
def Source.Busy : Source -> Prop
  | .verify rest => rest ≠ []
  | .quit _ rest => rest ≠ []
  | .crashed => False
  | _ => True

def Target.Busy : Target -> Prop
  | .info rest => rest ≠ []
  | .reply _ rest => rest ≠ []
  | .crashed => False
  | _ => True

/-- What the channel carries, in both directions. -/
structure Streams (w : World) : Prop where
  up : w.target.isExited = false -> exists z,
    w.target.held ++ w.up ++ z = frames u64 ((script s).drop w.counted.length) ∧
      ((w.source.isExited = false ∨ w.faulty = false) -> z = w.source.ahead s)
  down : forall n, w.source.heardCount = some n -> exists z,
    w.source.held ++ w.down ++ z = frames u64 ((s.info.blob :: w.counted.map putU64).drop n) ∧
      (w.target.isExited = false -> z = w.target.rest)
  sourceOpen : forall r, w.source.reader? = some r -> r.Open u64
  targetOpen : forall r, w.target.reader? = some r -> r.Open u64
  sourceBusy : w.source.Busy
  targetBusy : w.target.Busy
  counted : w.counted.length ≤ 1
  asked : w.counted ≠ [] -> w.source.HasAsked
  /-- The description is sent before a command is heard. -/
  described : forall rest, w.target = .info rest -> w.counted = []
  fits : forall b, b ∈ w.counted -> b < 2 ^ 64

variable {s}

theorem heard_info (r next : Reader UInt8) (blob : Blob) :
    (Source.info r).heard s (next, some blob) = heardInfo s blob := rfl

theorem heard_reply (r next : Reader UInt8) (blob : Blob) :
    (Source.reply r).heard s (next, some blob) = heardReply blob := rfl

theorem heard_command (rc : Exit) (region : Memory) (r next : Reader UInt8) (blob : Blob) :
    (Target.command rc r).heard s region (next, some blob) = heardCommand s rc region blob := rfl

theorem total_lt : s.total < 2 ^ 64 := s.total_fits

theorem length_verifyCommand : (verifyCommand s).length = 9 := by
  unfold verifyCommand
  rw [List.length_cons, length_putU64]

theorem length_script {m : Blob} (h : m ∈ script s) : m.length < u64.bound := by
  have hbound : u64.bound = 2 ^ 64 := rfl
  unfold script at h
  rw [List.mem_cons, List.mem_singleton] at h
  rw [hbound]
  cases h with
  | inl h =>
      rw [h, length_verifyCommand]
      decide
  | inr h =>
      rw [h]
      decide

theorem length_told {counted : List Nat} {m : Blob}
    (h : m ∈ s.info.blob :: counted.map putU64) : m.length < u64.bound := by
  have hbound : u64.bound = 2 ^ 64 := rfl
  rw [hbound]
  cases List.mem_cons.mp h with
  | inl h =>
      rw [h]
      exact s.blob_fits
  | inr h =>
      obtain ⟨b, _, rfl⟩ := List.mem_map.mp h
      rw [length_putU64]
      decide

/-!
## What is heard
-/

theorem heardInfo_blob : heardInfo s s.info.blob = begin s s.info s.rounds := by
  unfold heardInfo
  rw [readInfo_blob s.blob_fits s.base_fits]

theorem heardReply_putU64 {b : Nat} (h : b < 2 ^ 64) :
    heardReply (putU64 b) = .quit (b = 0) (frame u64 quitCommand) := by
  unfold heardReply
  rw [<- List.append_nil (putU64 b), readU64_putU64 h]

theorem heardCommand_verify (rc : Exit) (region : Memory) :
    heardCommand s rc region (verifyCommand s) =
      (.reply (if countOf s s.total region ≠ 0 then .failed else rc)
        (frame u64 (putU64 (countOf s s.total region))), [countOf s s.total region]) := by
  have hq : 'V'.toUInt8 ≠ 'Q'.toUInt8 := by decide
  unfold verifyCommand
  rw [heardCommand, if_neg hq, if_pos rfl, <- List.append_nil (putU64 s.total),
    readU64_putU64 total_lt]
  simp only
  rw [if_neg (Nat.lt_irrefl _)]

theorem heardCommand_quit (rc : Exit) (region : Memory) :
    heardCommand s rc region quitCommand = (.exited rc, []) := by
  unfold quitCommand
  rw [heardCommand, if_pos rfl]

theorem countMismatches_le (data : Memory) (n seed offset : Nat) :
    countMismatches data n seed offset ≤ n := by
  unfold countMismatches
  induction n with
  | zero => exact Nat.le_refl 0
  | succ n ih =>
      rw [List.range_succ, List.foldl_append, List.foldl_cons, List.foldl_nil]
      split_ifs
      · exact Nat.succ_le_succ ih
      · exact Nat.le_succ_of_le ih

theorem countOf_lt (region : Memory) : countOf s s.total region < 2 ^ 64 :=
  (countMismatches_le _ _ _ _).trans_lt total_lt

theorem ahead_begin (peer : Info) (later : List (List Nat)) :
    (begin s peer later).ahead s = frames u64 (script s) := by
  cases later with
  | nil =>
      show _ ++ frame u64 quitCommand = _
      unfold script
      rw [frames_cons, frames_cons, frames_nil, List.append_nil]
  | cons paths later => rfl

theorem reader?_begin (peer : Info) (later : List (List Nat)) :
    (begin s peer later).reader? = none := by
  cases later with
  | nil => rfl
  | cons paths later => rfl

theorem heardCount_begin (peer : Info) (later : List (List Nat)) :
    (begin s peer later).heardCount = some 1 := by
  cases later with
  | nil => rfl
  | cons paths later => rfl

theorem busy_begin (peer : Info) (later : List (List Nat)) : (begin s peer later).Busy := by
  cases later with
  | nil => exact Framing.frame_ne_nil u64 _
  | cons paths later => trivial

theorem held_of_reader? {source : Source} {r : Reader UInt8} (h : source.reader? = some r) :
    source.held = r.held u64 := by
  unfold Source.held
  rw [h]
  rfl

theorem streams_start : Streams s (World.start s) := by
  constructor
  · intro _
    exact ⟨frames u64 (script s), rfl, fun _ => rfl⟩
  · intro n hn
    cases hn
    refine ⟨frame u64 s.info.blob, ?_, fun _ => rfl⟩
    show [] ++ [] ++ frame u64 s.info.blob = frames u64 [s.info.blob]
    rw [frames_cons, frames_nil, List.append_nil, List.append_nil, List.nil_append]
  · intro r hr
    cases hr
    exact Framing.open_start u64
  · intro r hr
    cases hr
  · trivial
  · exact Framing.frame_ne_nil u64 _
  · exact Nat.zero_le 1
  · intro hne
    exact absurd rfl hne
  · intro _ _
    rfl
  · intro b hb
    cases hb

/-!
## Steps of the source
-/

section Steps

variable {w w' : World}

/-- The source moves on without sending. -/
theorem Streams.sourceMoves (h : Streams s w) {source : Source} {down : Blob} {moving : List Put}
    {faulty cut : Bool}
    (hahead : w.target.isExited = false -> source.isExited = false ∨ faulty = false ->
      (w.source.isExited = false ∨ w.faulty = false) ∧ source.ahead s = w.source.ahead s)
    (hdown : forall n, source.heardCount = some n -> exists z, source.held ++ down ++ z =
      frames u64 ((s.info.blob :: w.counted.map putU64).drop n) ∧
        (w.target.isExited = false -> z = w.target.rest))
    (hopen : forall r, source.reader? = some r -> r.Open u64) (hbusy : source.Busy)
    (hasked : w.counted ≠ [] -> source.HasAsked) :
    Streams s { w with
      source := source, down := down, moving := moving, faulty := faulty, cut := cut } := by
  constructor
  · intro htarget
    obtain ⟨z, hup, hz⟩ := h.up htarget
    refine ⟨z, hup, ?_⟩
    intro hlive
    obtain ⟨hbefore, hsame⟩ := hahead htarget hlive
    exact (hz hbefore).trans hsame.symm
  · exact hdown
  · exact hopen
  · exact h.targetOpen
  · exact hbusy
  · exact h.targetBusy
  · exact h.counted
  · exact hasked
  · exact h.described
  · exact h.fits

/-- Before the source has asked, nothing is counted. -/
theorem Streams.counted_eq_nil (h : Streams s w) (hsource : ¬ w.source.HasAsked) :
    w.counted = [] := by
  by_contra hne
  exact hsource (h.asked hne)

/-- A piece that the source receives completes no message, or the next one of the target. -/
theorem Streams.sourceHears (h : Streams s w) {k n : Nat} {r : Reader UInt8}
    {result : Reader UInt8 × Option Blob} {down : Blob} (hreader : w.source.reader? = some r)
    (hn : w.source.heardCount = some n) (hpull : r.pull u64 k w.down = some (result, down)) :
    exists z piece, (w.target.isExited = false -> z = w.target.rest) ∧ w.down = piece ++ down ∧
      w.source.held ++ w.down ++ z =
        frames u64 ((s.info.blob :: w.counted.map putU64).drop n) ∧
      w.source.held = r.held u64 ∧
      Framing.Received u64 r piece (down ++ z) ((s.info.blob :: w.counted.map putU64).drop n)
        result := by
  obtain ⟨z, hstream, hz⟩ := h.down n hn
  have hheld := held_of_reader? hreader
  rw [hheld] at hstream
  obtain ⟨piece, _, hdown, hreceived⟩ := Framing.pulled (h.sourceOpen r hreader)
    (fun m hm => length_told (List.mem_of_mem_drop hm)) hstream hpull
  rw [<- hheld] at hstream
  exact ⟨z, piece, hz, hdown, hstream, hheld, hreceived⟩

/-- What the source hears: a part of a message, the description, or the reply. -/
inductive SourceHeard (w : World) (down : Blob) (w' : World) : Prop
  | moreInfo (r next : Reader UInt8) (hsource : w.source = .info r)
      (hw : w' = { w with source := .info next, down := down })
  | moreReply (r next : Reader UInt8) (hsource : w.source = .reply r)
      (hw : w' = { w with source := .reply next, down := down })
  | info (r : Reader UInt8) (hsource : w.source = .info r)
      (hw : w' = { w with source := begin s s.info s.rounds, down := down })
  | reply (r : Reader UInt8) (b : Nat) (hsource : w.source = .reply r) (hb : w.counted = [b])
      (hw : w' = { w with source := .quit (b = 0) (frame u64 quitCommand), down := down })

theorem Streams.sourceReceives {k : Nat} (h : Streams s w)
    (hact : w.act s (.sourceReceives k) = some w') :
    Streams s w' ∧ exists down, SourceHeard (s := s) w down w' := by
  simp only [World.act, Option.bind_eq_bind, Option.bind_eq_some_iff] at hact
  obtain ⟨reader, hreader, ⟨result, down⟩, hpull, hw⟩ := hact
  rw [Option.some_inj] at hw
  rw [<- hw]
  cases hsource : w.source with
  | info r0 =>
      have hnone : w.counted = [] := h.counted_eq_nil (by rw [hsource]; exact id)
      obtain ⟨z, piece, hz, hdown, hstream, hheld, hreceived⟩ :=
        h.sourceHears hreader (show w.source.heardCount = some 0 by rw [hsource]; rfl) hpull
      cases hreceived with
      | more next hnext hnextHeld =>
          refine ⟨?_, down, .moreInfo r0 next hsource rfl⟩
          apply h.sourceMoves
          · intro _ _
            rw [hsource]
            exact ⟨.inl rfl, rfl⟩
          · intro n hn
            cases hn
            refine ⟨z, ?_, hz⟩
            rw [<- hstream, hdown, hheld, <- List.append_assoc, <- hnextHeld]
            rfl
          · intro r hr
            cases hr
            exact hnext
          · trivial
          · exact absurd hnone
      | message m later hms hrest =>
          rw [List.drop_zero, List.cons.injEq] at hms
          rw [heard_info, <- hms.1, heardInfo_blob]
          refine ⟨?_, down, .info r0 hsource rfl⟩
          apply h.sourceMoves
          · intro _ _
            rw [hsource, ahead_begin]
            exact ⟨.inl rfl, rfl⟩
          · intro n hn
            rw [heardCount_begin, Option.some_inj] at hn
            refine ⟨z, ?_, hz⟩
            unfold Source.held
            rw [reader?_begin, <- hn, List.drop_one, List.tail_cons, hms.2]
            exact hrest
          · intro r hr
            rw [reader?_begin] at hr
            cases hr
          · exact busy_begin s.info s.rounds
          · exact absurd hnone
  | reply r0 =>
      obtain ⟨z, piece, hz, hdown, hstream, hheld, hreceived⟩ :=
        h.sourceHears hreader (show w.source.heardCount = some 1 by rw [hsource]; rfl) hpull
      cases hreceived with
      | more next hnext hnextHeld =>
          refine ⟨?_, down, .moreReply r0 next hsource rfl⟩
          apply h.sourceMoves
          · intro _ _
            rw [hsource]
            exact ⟨.inl rfl, rfl⟩
          · intro n hn
            cases hn
            refine ⟨z, ?_, hz⟩
            rw [<- hstream, hdown, hheld, <- List.append_assoc, <- hnextHeld]
            rfl
          · intro r hr
            cases hr
            exact hnext
          · trivial
          · intro _
            trivial
      | message m later hms hrest =>
          have hm : m ∈ w.counted.map putU64 := by
            rw [List.drop_one, List.tail_cons] at hms
            rw [hms]
            exact List.mem_cons_self
          obtain ⟨b, hb, rfl⟩ := List.mem_map.mp hm
          have hcounted : w.counted = [b] := by
            have hle := h.counted
            cases hlist : w.counted with
            | nil =>
                rw [hlist] at hb
                cases hb
            | cons c rest =>
                rw [hlist, List.length_cons] at hle
                have hnil := List.length_eq_zero_iff.mp (show rest.length = 0 by omega)
                rw [hlist, hnil, List.mem_singleton] at hb
                rw [hnil, hb]
          rw [heard_reply, heardReply_putU64 (h.fits b hb)]
          refine ⟨?_, down, .reply r0 b hsource hcounted rfl⟩
          apply h.sourceMoves
          · intro _ _
            rw [hsource]
            exact ⟨.inl rfl, rfl⟩
          · intro n hn
            cases hn
          · intro r hr
            cases hr
          · exact Framing.frame_ne_nil u64 _
          · intro _
            trivial
  | _ =>
      rw [hsource] at hreader
      cases hreader

/-- What is pushed into the stream leaves the rest. -/
theorem pushed {k : Nat} {rest stream rest' stream' : Blob}
    (h : Framing.push k rest stream = some (rest', stream')) :
    rest ≠ [] ∧ stream' ++ rest' = stream ++ rest := by
  refine ⟨?_, Framing.push_eq_some h⟩
  intro hnil
  unfold Framing.push at h
  rw [hnil, List.length_nil] at h
  split_ifs at h with hk
  omega

theorem Streams.sourceSends {k : Nat} (h : Streams s w)
    (hact : w.act s (.sourceSends k) = some w') : Streams s w' := by
  simp only [World.act, Option.bind_eq_bind, Option.bind_eq_some_iff] at hact
  obtain ⟨⟨rest', up⟩, hpush, hw⟩ := hact
  rw [Option.some_inj] at hw
  rw [<- hw]
  obtain ⟨hne, hstream⟩ := pushed hpush
  cases hsource : w.source with
  | verify rest =>
      rw [hsource] at hpush hne hstream
      have hrest : up ++ rest' = w.up ++ rest := hstream
      have hnone : w.counted = [] := h.counted_eq_nil (by rw [hsource]; exact id)
      have hup : w.target.isExited = false ->
          w.target.held ++ up ++ (rest' ++ frame u64 quitCommand) =
            frames u64 ((script s).drop w.counted.length) := by
        intro htarget
        obtain ⟨z, hup, hz⟩ := h.up htarget
        rw [hsource] at hz
        have hahead : z = rest ++ frame u64 quitCommand := hz (.inl rfl)
        rw [<- hup, hahead, List.append_assoc, <- List.append_assoc up, hrest]
        simp only [List.append_assoc]
      have hdown := h.down 1 (by rw [hsource]; rfl)
      rw [hsource] at hdown
      show Streams s { w with source := if rest' = [] then _ else _, up := up }
      split_ifs with hempty
      · constructor
        · intro htarget
          rw [hempty, List.nil_append] at hup
          exact ⟨_, hup htarget, fun _ => rfl⟩
        · intro n hn
          cases hn
          exact hdown
        · intro r hr
          cases hr
          exact Framing.open_start u64
        · exact h.targetOpen
        · trivial
        · exact h.targetBusy
        · exact h.counted
        · intro _
          trivial
        · exact h.described
        · exact h.fits
      · constructor
        · intro htarget
          exact ⟨_, hup htarget, fun _ => rfl⟩
        · intro n hn
          cases hn
          exact hdown
        · intro r hr
          cases hr
        · exact h.targetOpen
        · exact hempty
        · exact h.targetBusy
        · exact h.counted
        · exact absurd hnone
        · exact h.described
        · exact h.fits
  | quit good rest =>
      rw [hsource] at hpush hne hstream
      have hrest : up ++ rest' = w.up ++ rest := hstream
      have hup : w.target.isExited = false -> w.target.held ++ up ++ rest' =
          frames u64 ((script s).drop w.counted.length) := by
        intro htarget
        obtain ⟨z, hup, hz⟩ := h.up htarget
        rw [hsource] at hz
        have hahead : z = rest := hz (.inl rfl)
        rw [<- hup, hahead, List.append_assoc, hrest, List.append_assoc]
      show Streams s { w with source := if rest' = [] then _ else _, up := up }
      split_ifs with hempty
      · constructor
        · intro htarget
          exact ⟨_, hup htarget, fun _ => hempty⟩
        · intro n hn
          cases hn
        · intro r hr
          cases hr
        · exact h.targetOpen
        · trivial
        · exact h.targetBusy
        · exact h.counted
        · intro _
          trivial
        · exact h.described
        · exact h.fits
      · constructor
        · intro htarget
          exact ⟨_, hup htarget, fun _ => rfl⟩
        · intro n hn
          cases hn
        · intro r hr
          cases hr
        · exact h.targetOpen
        · exact hempty
        · exact h.targetBusy
        · exact h.counted
        · intro _
          trivial
        · exact h.described
        · exact h.fits
  | _ =>
      rw [hsource] at hne
      exact absurd rfl hne

theorem Streams.sourceSteps {i : Nat} {immediate inProgress : Put -> Bool} (h : Streams s w)
    (hact : w.act s (.sourceSteps i immediate inProgress) = some w') : Streams s w' := by
  have hstep : stepStream i immediate inProgress w = some w' := hact
  unfold stepStream at hstep
  cases hsource : w.source with
  | measuring peer streams later =>
      rw [hsource] at hstep
      simp only at hstep
      cases hstream : streams[i]? with
      | none =>
          rw [hstream] at hstep
          cases hstep
      | some stream =>
          rw [hstream] at hstep
          simp only at hstep
          split_ifs at hstep
          rw [Option.some_inj] at hstep
          rw [<- hstep]
          have hdown := h.down 1 (by rw [hsource]; rfl)
          rw [hsource] at hdown
          apply h.sourceMoves
          · intro _ _
            rw [hsource]
            exact ⟨.inl rfl, rfl⟩
          · intro n hn
            cases hn
            exact hdown
          · intro r hr
            cases hr
          · trivial
          · exact absurd (h.counted_eq_nil (by rw [hsource]; exact id))
  | _ =>
      rw [hsource] at hstep
      cases hstep

theorem Streams.sourceFlushes (h : Streams s w)
    (hact : w.act s .sourceFlushes = some w') : Streams s w' := by
  have hflush : flush s w = some w' := hact
  unfold flush at hflush
  cases hsource : w.source with
  | measuring peer streams later =>
      rw [hsource] at hflush
      simp only at hflush
      split_ifs at hflush
      rw [Option.some_inj] at hflush
      rw [<- hflush]
      have hdown := h.down 1 (by rw [hsource]; rfl)
      rw [hsource] at hdown
      apply h.sourceMoves
      · intro _ _
        rw [hsource, ahead_begin]
        exact ⟨.inl rfl, rfl⟩
      · intro n hn
        rw [heardCount_begin, Option.some_inj] at hn
        rw [<- hn]
        unfold Source.held
        rw [reader?_begin]
        exact hdown
      · intro r hr
        rw [reader?_begin] at hr
        cases hr
      · exact busy_begin peer later
      · exact absurd (h.counted_eq_nil (by rw [hsource]; exact id))
  | _ =>
      rw [hsource] at hflush
      cases hflush

/-- A source that has failed has exited, or still asks the target to quit. -/
theorem Source.fail_eq_some {source failed : Source} (h : source.fail = some failed) :
    (exists exit, failed = .exited exit) ∨
      ((exists rest, source = .verify rest) ∨ exists r, source = .reply r) ∧
        failed = .quit false (frame u64 quitCommand) := by
  cases source with
  | info r =>
      cases h
      exact .inl ⟨_, rfl⟩
  | measuring peer streams later =>
      cases h
      exact .inl ⟨_, rfl⟩
  | verify rest =>
      cases h
      exact .inr ⟨.inl ⟨rest, rfl⟩, rfl⟩
  | reply r =>
      cases h
      exact .inr ⟨.inr ⟨r, rfl⟩, rfl⟩
  | quit good rest =>
      cases h
      exact .inl ⟨_, rfl⟩
  | exited exit => cases h
  | crashed => cases h

/-- The source gives up, by a failure or when the target has exited. -/
theorem Streams.sourceGivesUp (h : Streams s w) {failed : Source} {faulty cut : Bool}
    (hfail : w.source.fail = some failed) (hwhy : faulty = true ∨ w.target.isExited = true)
    (hverify : w.source.isVerify = false) :
    Streams s { w with source := failed, faulty := faulty, cut := cut } := by
  cases Source.fail_eq_some hfail with
  | inl hexited =>
      obtain ⟨exit, rfl⟩ := hexited
      apply h.sourceMoves
      · intro htarget hlive
        cases hwhy with
        | inl hfaulty =>
            rw [hfaulty] at hlive
            cases hlive with
            | inl hexited => cases hexited
            | inr hclean => cases hclean
        | inr hexited =>
            rw [htarget] at hexited
            cases hexited
      · intro n hn
        cases hn
      · intro r hr
        cases hr
      · trivial
      · intro _
        trivial
  | inr hquits =>
      obtain ⟨⟨rest, hrest⟩ | ⟨r0, hsource⟩, rfl⟩ := hquits
      · rw [hrest] at hverify
        cases hverify
      apply h.sourceMoves
      · intro _ _
        rw [hsource]
        exact ⟨.inl rfl, rfl⟩
      · intro n hn
        cases hn
      · intro r hr
        cases hr
      · exact Framing.frame_ne_nil u64 _
      · intro _
        trivial

theorem Streams.sourceHangsUp (h : Streams s w)
    (hact : w.act s .sourceHangsUp = some w') : Streams s w' := by
  simp only [World.act] at hact
  split_ifs at hact with hgone
  obtain ⟨failed, hfail, rfl⟩ := Option.map_eq_some_iff.mp hact
  apply h.sourceGivesUp hfail (.inr hgone.2.1)
  cases hsource : w.source with
  | verify rest =>
      rw [hsource] at hgone
      cases hgone.1
  | _ => rfl

theorem Streams.sourceFails (h : Streams s w)
    (hact : w.act s .sourceFails = some w') (hcut : w'.cut = false) : Streams s w' := by
  simp only [World.act] at hact
  obtain ⟨failed, hfail, rfl⟩ := Option.map_eq_some_iff.mp hact
  exact h.sourceGivesUp hfail (.inl rfl) (Bool.or_eq_false_iff.mp hcut).2

theorem Streams.sourceDies (h : Streams s w)
    (hact : w.act s .sourceDies = some w') : Streams s w' := by
  simp only [World.act] at hact
  split_ifs at hact
  rw [Option.some_inj] at hact
  rw [<- hact]
  apply h.sourceMoves
  · intro _ hlive
    cases hlive with
    | inl hexited => cases hexited
    | inr hclean => cases hclean
  · intro n hn
    cases hn
  · intro r hr
    cases hr
  · trivial
  · intro _
    trivial

/-!
## Steps of the target
-/

/-- The target exits. -/
theorem Streams.targetExits (h : Streams s w) {exit : Exit} {up : Blob} {faulty : Bool} :
    Streams s { w with target := .exited exit, up := up, faulty := faulty } := by
  constructor
  · intro htarget
    cases htarget
  · intro n hn
    obtain ⟨z, hdown, _⟩ := h.down n hn
    refine ⟨z, hdown, ?_⟩
    intro htarget
    cases htarget
  · exact h.sourceOpen
  · intro r hr
    cases hr
  · exact h.sourceBusy
  · trivial
  · exact h.counted
  · exact h.asked
  · intro rest hrest
    cases hrest
  · exact h.fits

/-- When the target has heard a whole command, the source has sent the command to verify. -/
theorem Streams.hasAsked (h : Streams s w) {piece up z : Blob} {later : List Blob}
    (hpiece : piece ≠ []) (hup : w.up = piece ++ up)
    (hstream : w.target.held ++ w.up ++ z = frames u64 (script s))
    (hz : w.source.isExited = false -> z = w.source.ahead s)
    (hms : script s = verifyCommand s :: later) (hrest : up ++ z = frames u64 later) :
    w.source.HasAsked := by
  have hlater : later = [quitCommand] := (List.cons.inj hms).2.symm
  have hbusy := h.sourceBusy
  -- Nothing is on its way while all commands are still ahead.
  have hquiet : z ≠ frames u64 (script s) := by
    intro hall
    have hlength := congrArg List.length hstream
    rw [hall, hup, List.length_append, List.length_append, List.length_append] at hlength
    have hpos := List.length_pos_iff.mpr hpiece
    omega
  cases hsource : w.source with
  | info r =>
      rw [hsource] at hz
      exact absurd (hz rfl) hquiet
  | measuring peer streams later =>
      rw [hsource] at hz
      exact absurd (hz rfl) hquiet
  | verify rest =>
      rw [hsource] at hz hbusy
      have hahead : z = rest ++ frame u64 quitCommand := hz rfl
      rw [hahead, hlater, frames_cons, frames_nil, List.append_nil] at hrest
      have hlength := congrArg List.length hrest
      rw [List.length_append, List.length_append] at hlength
      have hpos := List.length_pos_iff.mpr hbusy
      omega
  | reply r => trivial
  | quit good rest => trivial
  | exited exit => trivial
  | crashed =>
      rw [hsource] at hbusy
      exact absurd hbusy id

theorem Source.heardCount_of_hasAsked {source : Source} {n : Nat} (h : source.HasAsked)
    (hn : source.heardCount = some n) : n = 1 := by
  cases source with
  | reply r =>
      cases hn
      rfl
  | info r => exact absurd h id
  | measuring peer streams later => exact absurd h id
  | verify rest => exact absurd h id
  | quit good rest => cases hn
  | exited exit => cases hn
  | crashed => cases hn

/-- What the target hears: a part of a command, the command to verify, or the one to quit. -/
inductive Heard (w : World) (rc : Exit) (up : Blob) (w' : World) : Prop
  | more (next : Reader UInt8) (hup : w.up ≠ [])
      (hw : w' = { w with target := .command rc next, up := up, counted := w.counted ++ [] })
  | verify (hnone : w.counted = []) (hasked : w.source.HasAsked) (hup : w.up ≠ [])
      (hw : w' = { w with
        target := .reply (if countOf s s.total w.region ≠ 0 then .failed else rc)
          (frame u64 (putU64 (countOf s s.total w.region)))
        up := up
        counted := w.counted ++ [countOf s s.total w.region] })
  | quit (hcounted : w.counted ≠ []) (hup : w.up ≠ [])
      (hw : w' = { w with target := .exited rc, up := up, counted := w.counted ++ [] })

theorem Streams.targetReceives {k : Nat} (h : Streams s w)
    (hact : w.act s (.targetReceives k) = some w') : Streams s w' ∧
      exists rc r up, w.target = .command rc r ∧ Heard (s := s) w rc up w' := by
  simp only [World.act, Option.bind_eq_bind, Option.bind_eq_some_iff] at hact
  obtain ⟨reader, hreader, ⟨result, up⟩, hpull, hw⟩ := hact
  rw [Option.some_inj] at hw
  rw [<- hw]
  cases htarget : w.target with
  | command rc r0 =>
      have hopen := h.targetOpen reader hreader
      have hheld : w.target.held = reader.held u64 := by
        unfold Target.held
        rw [hreader]
        rfl
      obtain ⟨z, hstream, hz⟩ := h.up (by rw [htarget]; rfl)
      have hstream' := hstream
      rw [hheld] at hstream'
      obtain ⟨piece, hpiece, hup, hreceived⟩ := Framing.pulled hopen
        (fun m hm => length_script (List.mem_of_mem_drop hm)) hstream' hpull
      have hupNe : w.up ≠ [] := by
        rw [hup]
        exact List.append_ne_nil_of_left_ne_nil hpiece up
      cases hreceived with
      | more next hnext hnextHeld =>
          refine ⟨?_, rc, r0, up, rfl, .more next hupNe rfl⟩
          show Streams s { w with target := .command rc next, up := up, counted := w.counted ++ [] }
          rw [List.append_nil]
          constructor
          · intro _
            refine ⟨z, ?_, hz⟩
            rw [<- hstream, hup, hheld, <- List.append_assoc, <- hnextHeld]
            rfl
          · intro n hn
            obtain ⟨z, hdown, hz⟩ := h.down n hn
            rw [htarget] at hz
            exact ⟨z, hdown, hz⟩
          · exact h.sourceOpen
          · intro r hr
            cases hr
            exact hnext
          · exact h.sourceBusy
          · trivial
          · exact h.counted
          · exact h.asked
          · intro rest hrest
            cases hrest
          · exact h.fits
      | message m later hms hrest =>
          rw [heard_command]
          cases hcounted : w.counted with
          | nil =>
              rw [hcounted] at hms hstream
              have hm : verifyCommand s = m := (List.cons.inj hms).1
              rw [<- hm] at hms ⊢
              have hasked := h.hasAsked hpiece hup hstream
                (fun hlive => hz (.inl hlive)) hms hrest
              have hlater : later = [quitCommand] := (List.cons.inj hms).2.symm
              rw [heardCommand_verify]
              refine ⟨?_, rc, r0, up, rfl, .verify hcounted hasked hupNe ?_⟩
              · constructor
                · intro _
                  refine ⟨z, ?_, hz⟩
                  show up ++ z = frames u64 [quitCommand]
                  rw [hrest, hlater]
                · intro n hn
                  have hone := Source.heardCount_of_hasAsked hasked hn
                  obtain ⟨z, hdown, hz⟩ := h.down n hn
                  rw [htarget] at hz
                  have hnil : z = [] := hz rfl
                  rw [hcounted, hone, hnil, List.append_nil] at hdown
                  have hempty : w.source.held ++ w.down = [] := hdown
                  refine ⟨frame u64 (putU64 (countOf s s.total w.region)), ?_, fun _ => rfl⟩
                  show w.source.held ++ w.down ++ frame u64 _ = _
                  rw [hempty, hone]
                  show _ = frames u64 [putU64 (countOf s s.total w.region)]
                  rw [frames_cons, frames_nil, List.append_nil, List.nil_append]
                · exact h.sourceOpen
                · intro r hr
                  cases hr
                · exact h.sourceBusy
                · exact Framing.frame_ne_nil u64 _
                · exact Nat.le_refl 1
                · intro _
                  exact hasked
                · intro rest hrest
                  cases hrest
                · intro b hb
                  rw [List.mem_singleton.mp hb]
                  exact countOf_lt w.region
              · rw [hcounted]
          | cons b rest =>
              have hnil : rest = [] := by
                have hle := h.counted
                rw [hcounted, List.length_cons] at hle
                exact List.length_eq_zero_iff.mp (by omega)
              rw [hcounted, hnil] at hms
              have hm : quitCommand = m := (List.cons.inj hms).1
              rw [<- hm, heardCommand_quit]
              have hne : w.counted ≠ [] := by
                rw [hcounted]
                exact List.cons_ne_nil b rest
              refine ⟨?_, rc, r0, up, rfl, .quit hne hupNe ?_⟩
              · show Streams s { w with target := .exited rc, up := up, counted := _ ++ [] }
                rw [List.append_nil, <- hcounted]
                exact h.targetExits
              · rw [hcounted]
  | _ =>
      rw [htarget] at hreader
      cases hreader

theorem Streams.targetSends {k : Nat} (h : Streams s w)
    (hact : w.act s (.targetSends k) = some w') : Streams s w' := by
  simp only [World.act, Option.bind_eq_bind, Option.bind_eq_some_iff] at hact
  obtain ⟨⟨rest', down⟩, hpush, hw⟩ := hact
  rw [Option.some_inj] at hw
  rw [<- hw]
  obtain ⟨hne, hstream⟩ := pushed hpush
  have hdown : w.target.isExited = false -> forall n, w.source.heardCount = some n ->
      w.source.held ++ down ++ rest' =
        frames u64 ((s.info.blob :: w.counted.map putU64).drop n) := by
    intro htarget n hn
    obtain ⟨z, hdown, hz⟩ := h.down n hn
    rw [<- hdown, hz htarget, List.append_assoc, hstream, List.append_assoc]
  have hsent : forall target : Target, target.reader? = some .start -> w.target.held = [] ->
      w.target.isExited = false -> rest' = [] -> target.isExited = false -> target.rest = [] ->
      target.Busy -> (forall rest, target ≠ .info rest) ->
      Streams s { w with target := target, down := down } := by
    intro target hreader hheld hlive hempty hexited hrest hbusy hinfo
    constructor
    · intro _
      obtain ⟨z, hup, hz⟩ := h.up hlive
      refine ⟨z, ?_, hz⟩
      rw [<- hup, hheld]
      unfold Target.held
      rw [hreader]
      rfl
    · intro n hn
      exact ⟨rest', hdown hlive n hn, fun _ => hempty.trans hrest.symm⟩
    · exact h.sourceOpen
    · intro r hr
      rw [hreader] at hr
      cases hr
      exact Framing.open_start u64
    · exact h.sourceBusy
    · exact hbusy
    · exact h.counted
    · exact h.asked
    · intro rest htarget
      exact absurd htarget (hinfo rest)
    · exact h.fits
  cases htarget : w.target with
  | info rest =>
      have hlive : w.target.isExited = false := by rw [htarget]; rfl
      have hheld : w.target.held = [] := by rw [htarget]; rfl
      show Streams s { w with target := if rest' = [] then _ else _, down := down }
      split_ifs with hempty
      · exact hsent (.command .ok .start) rfl hheld hlive hempty rfl rfl trivial
          (fun rest hinfo => by cases hinfo)
      · constructor
        · intro _
          obtain ⟨z, hup, hz⟩ := h.up hlive
          rw [hheld] at hup
          exact ⟨z, hup, hz⟩
        · intro n hn
          exact ⟨rest', hdown hlive n hn, fun _ => rfl⟩
        · exact h.sourceOpen
        · intro r hr
          cases hr
        · exact h.sourceBusy
        · exact hempty
        · exact h.counted
        · exact h.asked
        · intro _ _
          exact h.described rest htarget
        · exact h.fits
  | reply rc rest =>
      have hlive : w.target.isExited = false := by rw [htarget]; rfl
      have hheld : w.target.held = [] := by rw [htarget]; rfl
      show Streams s { w with target := if rest' = [] then _ else _, down := down }
      split_ifs with hempty
      · exact hsent (.command rc .start) rfl hheld hlive hempty rfl rfl trivial
          (fun rest hinfo => by cases hinfo)
      · constructor
        · intro _
          obtain ⟨z, hup, hz⟩ := h.up hlive
          rw [hheld] at hup
          exact ⟨z, hup, hz⟩
        · intro n hn
          exact ⟨rest', hdown hlive n hn, fun _ => rfl⟩
        · exact h.sourceOpen
        · intro r hr
          cases hr
        · exact h.sourceBusy
        · exact hempty
        · exact h.counted
        · exact h.asked
        · intro rest hrest
          cases hrest
        · exact h.fits
  | _ =>
      rw [htarget] at hne
      exact absurd rfl hne

theorem Target.fail_eq_some {target failed : Target} (h : target.fail = some failed) :
    failed = .exited .failed := by
  cases target with
  | info rest =>
      cases h
      rfl
  | command rc r =>
      cases h
      rfl
  | reply rc rest =>
      cases h
      rfl
  | exited exit => cases h
  | crashed => cases h

theorem Streams.targetHangsUp (h : Streams s w)
    (hact : w.act s .targetHangsUp = some w') : Streams s w' := by
  simp only [World.act] at hact
  split_ifs at hact
  obtain ⟨failed, hfail, rfl⟩ := Option.map_eq_some_iff.mp hact
  rw [Target.fail_eq_some hfail]
  exact h.targetExits

theorem Streams.targetFails (h : Streams s w)
    (hact : w.act s .targetFails = some w') : Streams s w' := by
  simp only [World.act] at hact
  obtain ⟨failed, hfail, rfl⟩ := Option.map_eq_some_iff.mp hact
  rw [Target.fail_eq_some hfail]
  exact h.targetExits

theorem Streams.stores {put : Put} (h : Streams s w)
    (hact : w.act s (.stores put) = some w') : Streams s w' := by
  simp only [World.act] at hact
  split_ifs at hact
  rw [Option.some_inj] at hact
  rw [<- hact]
  constructor
  · exact h.up
  · exact h.down
  · exact h.sourceOpen
  · exact h.targetOpen
  · exact h.sourceBusy
  · exact h.targetBusy
  · exact h.counted
  · exact h.asked
  · exact h.described
  · exact h.fits

theorem Streams.act {a : Action} (h : Streams s w) (hact : w.act s a = some w')
    (hcut : w'.cut = false) : Streams s w' := by
  cases a with
  | sourceReceives k => exact (h.sourceReceives hact).1
  | sourceSends k => exact h.sourceSends hact
  | sourceSteps i immediate inProgress => exact h.sourceSteps hact
  | sourceFlushes => exact h.sourceFlushes hact
  | sourceHangsUp => exact h.sourceHangsUp hact
  | sourceFails => exact h.sourceFails hact hcut
  | sourceDies => exact h.sourceDies hact
  | targetReceives k => exact (h.targetReceives hact).1
  | targetSends k => exact h.targetSends hact
  | targetHangsUp => exact h.targetHangsUp hact
  | targetFails => exact h.targetFails hact
  | stores put => exact h.stores hact

end Steps

end Rendezvous
end Bench
end Ostia

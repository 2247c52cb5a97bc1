import Ostia.Bench.Channel
import Ostia.Bench.PutStream

/-!
# Two ranks on one rendezvous channel

The target sends its description and then answers commands; the source reads the description,
runs its transfers, has the target verify what arrived, and lets it quit.  Each end of the channel
sends and receives pieces of any size, at any time, and a rank may fail at any operation.
-/

namespace Ostia
namespace Bench
namespace Rendezvous

open Foundation
open Framing (Reader)

/-!
## The ranks
-/

def kSeed : Nat := 5

/-- How a rank ends; one that a signal ends has failed. -/
inductive Exit where
  | ok
  | failed
deriving DecidableEq

/-- What both ranks are started with, what the target describes, and what the fabric does. -/
structure Setup where
  info : Info
  /-- The bytes of each path. -/
  bytes : Nat
  chunk : Nat
  inflight : Nat
  /-- The paths of each transfer. -/
  rounds : List (List Nat)
  corrupt : Bool
  /-- Where the fabric stores the bytes of a put. -/
  place : Put -> Nat
  blob_fits : info.blob.length < 2 ^ 64
  base_fits : info.base < 2 ^ 64
  total_fits : bytes * info.sessions.length < 2 ^ 64

variable (s : Setup)

/-- The bytes of the region, one path for each session. -/
def Setup.total : Nat := s.bytes * s.info.sessions.length

def verifyCommand : Blob := 'V'.toUInt8 :: putU64 s.total

def quitCommand : Blob := ['Q'.toUInt8]

def newStream (path : Nat) : PutStream :=
  PutStream.new (path * s.bytes) s.bytes s.chunk s.inflight

inductive Source where
  | info (reader : Reader UInt8)
  | measuring (peer : Info) (streams : List PutStream) (later : List (List Nat))
  | verify (rest : Blob)
  | reply (reader : Reader UInt8)
  | quit (good : Bool) (rest : Blob)
  | exited (exit : Exit)
  /-- A read past the end of a message. -/
  | crashed

inductive Target where
  | info (rest : Blob)
  | command (rc : Exit) (reader : Reader UInt8)
  | reply (rc : Exit) (rest : Blob)
  | exited (exit : Exit)
  /-- A read past the end of a message or of the region. -/
  | crashed

structure World where
  source : Source
  target : Target
  /-- The bytes on their way to the target. -/
  up : Blob
  /-- The bytes on their way to the source. -/
  down : Blob
  /-- The puts whose bytes are still on their way. -/
  moving : List Put
  region : Memory
  /-- The counts that the target has answered. -/
  counted : List Nat
  /-- Some operation of a rank has failed. -/
  faulty : Bool
  /-- The send of the command to verify has failed. -/
  cut : Bool

def World.start : World where
  source := .info .start
  target := .info (Framing.frame u64 s.info.blob)
  up := []
  down := []
  moving := []
  region := fun _ => 0
  counted := []
  faulty := false
  cut := false

/-!
## What the ranks do
-/

/-- The next transfer, or the verification after the last one. -/
def begin (peer : Info) : List (List Nat) -> Source
  | [] => .verify (Framing.frame u64 (verifyCommand s))
  | paths :: later => .measuring peer (paths.map (newStream s)) later

def heardInfo (blob : Blob) : Source :=
  match readInfo s.info.sessions.length blob with
  | .error .rails => .exited .failed
  | .error .past => .crashed
  | .ok peer => begin s peer s.rounds

def heardReply (blob : Blob) : Source :=
  match readU64 blob with
  | none => .crashed
  | some (bad, _) => .quit (bad = 0) (Framing.frame u64 quitCommand)

/-- The data that the target checks: its self-check inverts the byte in the middle. -/
def checked (n : Nat) (region : Memory) : Memory :=
  if s.corrupt then Function.update region (n / 2) (region (n / 2) ^^^ 0xff) else region

def countOf (n : Nat) (region : Memory) : Nat :=
  countMismatches (checked s n region) n kSeed 0

/-- The target's answer to a command, and the count that it sends. -/
def heardCommand (rc : Exit) (region : Memory) : Blob -> Target × List Nat
  | [] => (.exited rc, [])
  | c :: rest =>
      if c = 'Q'.toUInt8 then (.exited rc, [])
      else if c = 'V'.toUInt8 then
        match readU64 rest with
        | none => (.crashed, [])
        | some (n, _) =>
            if s.total < n then (.crashed, [])
            else
              let bad := countOf s n region
              (.reply (if bad ≠ 0 then .failed else rc) (Framing.frame u64 (putU64 bad)), [bad])
      else (.command rc .start, [])

def Source.isExited : Source -> Bool
  | .exited _ => true
  | _ => false

def Target.isExited : Target -> Bool
  | .exited _ => true
  | _ => false

inductive Action where
  | sourceReceives (k : Nat)
  | sourceSends (k : Nat)
  /-- One step of a stream of the current transfer. -/
  | sourceSteps (i : Nat) (immediate inProgress : Put -> Bool)
  /-- The flush after a transfer, which waits until every put is stored. -/
  | sourceFlushes
  /-- The source finds that its peer has closed the channel. -/
  | sourceHangsUp
  /-- An operation of the source fails: a timeout, an error. -/
  | sourceFails
  /-- A signal ends the source. -/
  | sourceDies
  | targetReceives (k : Nat)
  | targetSends (k : Nat)
  | targetHangsUp
  | targetFails
  /-- The fabric stores the bytes of a put. -/
  | stores (put : Put)

/-- A failed operation of the source.  Once it has its measurements it still asks the target to
quit, also behind a command to verify that was sent in part. -/
def Source.fail : Source -> Option Source
  | .info _ => some (.exited .failed)
  | .measuring _ _ _ => some (.exited .failed)
  | .verify _ => some (.quit false (Framing.frame u64 quitCommand))
  | .reply _ => some (.quit false (Framing.frame u64 quitCommand))
  | .quit good _ => some (.exited (if good then .ok else .failed))
  | .exited _ => none
  | .crashed => none

def Source.isVerify : Source -> Bool
  | .verify _ => true
  | _ => false

def Target.fail : Target -> Option Target
  | .info _ => some (.exited .failed)
  | .command _ _ => some (.exited .failed)
  | .reply _ _ => some (.exited .failed)
  | .exited _ => none
  | .crashed => none

/-- Where the source is once the rest of a message is sent. -/
def Source.sent : Source -> Source
  | .verify _ => .reply .start
  | .quit good _ => .exited (if good then .ok else .failed)
  | source => source

def Target.sent : Target -> Target
  | .info _ => .command .ok .start
  | .reply rc _ => .command rc .start
  | target => target

/-- What a rank has left to send of a message. -/
def Source.rest : Source -> Blob
  | .verify rest => rest
  | .quit _ rest => rest
  | _ => []

def Target.rest : Target -> Blob
  | .info rest => rest
  | .reply _ rest => rest
  | _ => []

def Source.withRest (rest : Blob) : Source -> Source
  | .verify _ => .verify rest
  | .quit good _ => .quit good rest
  | source => source

def Target.withRest (rest : Blob) : Target -> Target
  | .info _ => .info rest
  | .reply rc _ => .reply rc rest
  | target => target

def Source.reader? : Source -> Option (Reader UInt8)
  | .info reader => some reader
  | .reply reader => some reader
  | _ => none

def Target.reader? : Target -> Option (Reader UInt8)
  | .command _ reader => some reader
  | _ => none

/-- What the source makes of a piece that it has received. -/
def Source.heard (source : Source) (result : Reader UInt8 × Option Blob) : Source :=
  match source, result.2 with
  | .info _, none => .info result.1
  | .info _, some blob => heardInfo s blob
  | .reply _, none => .reply result.1
  | .reply _, some blob => heardReply blob
  | source, _ => source

def Target.heard (target : Target) (region : Memory) (result : Reader UInt8 × Option Blob) :
    Target × List Nat :=
  match target, result.2 with
  | .command rc _, none => (.command rc result.1, [])
  | .command rc _, some blob => heardCommand s rc region blob
  | target, _ => (target, [])

def stepStream (i : Nat) (immediate inProgress : Put -> Bool) (w : World) : Option World :=
  match w.source with
  | .measuring peer streams later =>
      match streams[i]? with
      | none => none
      | some stream =>
          if stream.done then none
          else
            let r := stream.step immediate inProgress
            some { w with
              source := .measuring peer (streams.set i r.2) later
              moving := w.moving ++ r.1 }
  | _ => none

def flush (w : World) : Option World :=
  match w.source with
  | .measuring peer streams later =>
      if streams.all PutStream.done ∧ w.moving = [] then
        some { w with source := begin s peer later }
      else none
  | _ => none

def World.act (w : World) : Action -> Option World
  | .sourceReceives k => do
      let reader ← w.source.reader?
      let r ← reader.pull u64 k w.down
      some { w with source := w.source.heard s r.1, down := r.2 }
  | .sourceSends k => do
      let r ← Framing.push k w.source.rest w.up
      let source := if r.1 = [] then w.source.sent else w.source.withRest r.1
      some { w with source := source, up := r.2 }
  | .sourceSteps i immediate inProgress => stepStream i immediate inProgress w
  | .sourceFlushes => flush s w
  | .sourceHangsUp =>
      if w.source.reader?.isSome ∧ w.target.isExited ∧ w.down = [] then
        w.source.fail.map fun source => { w with source := source }
      else none
  | .sourceFails => w.source.fail.map fun source =>
      { w with source := source, faulty := true, cut := w.cut || w.source.isVerify }
  | .sourceDies =>
      if w.source.isExited then none
      else some { w with source := .exited .failed, faulty := true }
  | .targetReceives k => do
      let reader ← w.target.reader?
      let r ← reader.pull u64 k w.up
      let h := w.target.heard s w.region r.1
      some { w with target := h.1, up := r.2, counted := w.counted ++ h.2 }
  | .targetSends k => do
      let r ← Framing.push k w.target.rest w.down
      let target := if r.1 = [] then w.target.sent else w.target.withRest r.1
      some { w with target := target, down := r.2 }
  | .targetHangsUp =>
      if w.target.reader?.isSome ∧ w.source.isExited ∧ w.up = [] then
        w.target.fail.map fun target => { w with target := target }
      else none
  | .targetFails => w.target.fail.map fun target => { w with target := target, faulty := true }
  | .stores put =>
      if put ∈ w.moving then
        some { w with
          moving := w.moving.erase put
          region := store (pattern kSeed) s.place w.region put }
      else none

/-- The states that the two ranks reach, by steps in any order. -/
def Reached (w : World) : Prop :=
  Transition.Reached (World.act s) (fun _ _ => True) (World.start s) w

/-- Two paths of three bytes, in chunks of two: each alone, then both. -/
def rails : Setup where
  info := ⟨[([1, 2], [3]), ([4], [5, 6])], 4096⟩
  bytes := 3
  chunk := 2
  inflight := 2
  rounds := [[0], [1], [0, 1]]
  corrupt := false
  place := Put.offset
  blob_fits := by decide
  base_fits := by decide
  total_fits := by decide

/-- The description in pieces, then the transfers: the second chunk of the first is stored and
completes before the first one. -/
def railsTransfers : List Action :=
  [.targetSends 30, .sourceReceives 5, .sourceReceives 3, .sourceReceives 20, .targetSends 32,
    .sourceReceives 34,
    .sourceSteps 0 (fun _ => false) (fun put => put.offset = 0), .stores ⟨2, 1⟩,
    .sourceSteps 0 (fun _ => false) (fun _ => false), .stores ⟨0, 2⟩, .sourceFlushes,
    .sourceSteps 0 (fun _ => true) (fun _ => false), .stores ⟨3, 2⟩, .stores ⟨5, 1⟩,
    .sourceFlushes,
    .sourceSteps 1 (fun _ => true) (fun _ => false),
    .sourceSteps 0 (fun _ => true) (fun _ => false),
    .stores ⟨3, 2⟩, .stores ⟨0, 2⟩, .stores ⟨2, 1⟩, .stores ⟨5, 1⟩, .sourceFlushes]

/-- The command to verify in two pieces, and the reply. -/
def railsVerify : List Action :=
  [.sourceSends 4, .sourceSends 13, .targetReceives 4, .targetReceives 4, .targetReceives 9,
    .targetSends 16, .sourceReceives 8, .sourceReceives 8]

def railsQuit : List Action := [.sourceSends 9, .targetReceives 8, .targetReceives 1]

theorem rails_reached {moves : List Action} {w : World}
    (h : Transition.replay (World.act rails) (World.start rails) moves = some w) :
    Reached rails w :=
  Transition.Reached.init.replay (fun _ _ _ => trivial) h

theorem exists_rails : exists w, Reached rails w ∧ w.source = .exited .ok ∧
    w.target = .exited .ok ∧ w.faulty = false := by
  have hrun : exists w, Transition.replay (World.act rails) (World.start rails)
      (railsTransfers ++ railsVerify ++ railsQuit) = some w ∧ w.source = .exited .ok ∧
      w.target = .exited .ok ∧ w.faulty = false := ⟨_, rfl, rfl, rfl, rfl⟩
  obtain ⟨w, hreplay, hends⟩ := hrun
  exact ⟨w, rails_reached hreplay, hends⟩

end Rendezvous
end Bench
end Ostia

import Ostia.Dev.Text
import Ostia.Foundation.Outage
import Ostia.Foundation.Resume

/-!
# Streaming a pod's log

The log of a pod is followed until the line with the finished marker.  A lost
connection is resumed at the timestamp of the last line, and the lines at that
timestamp that were printed before are counted and dropped.
-/

namespace Ostia
namespace Dev

open Foundation

namespace LogStream

def finishedMarker : String := "[ostia] finished with exit"

def lostForGood : Nat := 120

/-- A line of a pod's log, with the timestamp that Kubernetes gives it. -/
structure LogLine where
  ts : String
  text : String
deriving DecidableEq

def LogLine.raw (l : LogLine) : String := l.ts ++ " " ++ l.text

def LogLine.isFinished (l : LogLine) : Bool := Text.startsWith l.text finishedMarker

/-- What Kubernetes emits: each line with its timestamp and one line feed. -/
def emitted (ls : List LogLine) : String :=
  String.ofList (ls.flatMap fun l => l.raw.toList ++ ['\n'])

/-!
## The loop
-/

structure State where
  /-- The timestamp of the last line and how many lines of it were printed. -/
  cursor : Cursor String
  lostSince : Option Nat
  lastStep : Option String
  printed : List String

def State.start : State := ⟨Cursor.start, none, none, []⟩

def stepOf (line : String) (lastStep : Option String) : Option String :=
  if Text.startsWith line "[ostia] step " && Text.contains line " (" then
    (Text.words line)[2]?
  else lastStep

def State.print (s : State) (ts line : String) : State :=
  { cursor := s.cursor.take ts
    lostSince := none
    lastStep := stepOf line s.lastStep
    printed := s.printed ++ [line] }

/-- Read lines until the finished marker; whether it was read. -/
def follow (s : State) (skip : Nat) : List String -> State × Bool
  | [] => (s, false)
  | raw :: rest =>
      let parts := Text.partition raw
      match s.cursor.step skip parts.1 with
      | (skip', false) => follow s skip' rest
      | (skip', true) =>
          let s' := s.print parts.1 parts.2
          if Text.startsWith parts.2 finishedMarker then (s', true)
          else follow s' skip' rest

/-- How one attempt to follow the log ends when the marker was not read. -/
inductive Ending where
  /-- The connection is lost while the log is read; two readings of the clock. -/
  | lostLogs (first now : Nat)
  /-- The log ends and the connection is lost while the status is read. -/
  | lostStatus (first now : Nat)
  | alive
  | dead
  | failed

/-- What one attempt yields and how it ends. -/
structure Attempt where
  text : String
  ending : Ending

inductive Outcome where
  | running (s : State)
  | returned (s : State)
  | raised (s : State)

def lost (s : State) (first now : Nat) : Outcome :=
  let since := s.lostSince.getD first
  if now - since ≥ lostForGood then .raised s
  else .running { s with lostSince := some since }

def attempt (s : State) (a : Attempt) : Outcome :=
  match follow s s.cursor.atLast (Text.streamLines a.text) with
  | (s', true) => .returned s'
  | (s', false) =>
      match a.ending with
      | .lostLogs first now => lost s' first now
      | .lostStatus first now => lost { s' with lostSince := none } first now
      | .alive => .running { s' with lostSince := none }
      | .dead => .raised { s' with lostSince := none }
      | .failed => .raised s'

def run (s : State) : List Attempt -> Outcome
  | [] => .running s
  | a :: rest =>
      match attempt s a with
      | .running s' => run s' rest
      | o => o

/-!
## Reading a log from a place
-/

/-- Timestamps are in order and hold no blank and no line end; a text holds no line feed. -/
structure WellFormed (log : List LogLine) : Prop where
  sorted : (log.map LogLine.ts).Pairwise (· ≤ ·)
  stamps : forall l, l ∈ log -> forall c, c ∈ l.ts.toList -> c ≠ ' ' ∧ Text.isBoundary c = false
  texts : forall l, l ∈ log -> '\n' ∉ l.text.toList

/-- The lines up to p were delivered, and n of them were printed in all. -/
structure Reads (log : List LogLine) (p n skip : Nat) (s : State) : Prop where
  pass : Cursor.Pass (log.map LogLine.ts) p n s.cursor skip
  printed : s.printed = (log.take n).map LogLine.text
  unfinished : forall l, l ∈ log.take n -> l.isFinished = false

/-- The marker was read among the lines from n up to m, and everything up to it was printed. -/
def PrintedAll (log : List LogLine) (n m : Nat) (s : State) : Prop :=
  exists f l, n ≤ f ∧ f < m ∧ log[f]? = some l ∧ l.isFinished = true ∧
    (forall l', l' ∈ log.take f -> l'.isFinished = false) ∧
    s.printed = (log.take (f + 1)).map LogLine.text

section Log

variable {log : List LogLine} (hlog : WellFormed log)

include hlog

theorem partition_raw {l : LogLine} (hl : l ∈ log) : Text.partition l.raw = (l.ts, l.text) :=
  Text.partition_append (fun c hc => (hlog.stamps l hl c hc).1)

/-- One delivered line is dropped when it was printed before, and printed otherwise. -/
theorem follow_cons {p n skip : Nat} {s : State} (h : Reads log p n skip s) {l : LogLine}
    (hget : log[p]? = some l) (rest : List String) :
    (exists n' skip' s', follow s skip (l.raw :: rest) = follow s' skip' rest ∧
      Reads log (p + 1) n' skip' s' ∧ n' = max n (p + 1) ∧
      s'.lostSince = if n < n' then none else s.lostSince) ∨
    exists s', follow s skip (l.raw :: rest) = (s', true) ∧ PrintedAll log n (p + 1) s' := by
  have hl : l ∈ log := List.mem_of_getElem? hget
  have hts : (log.map LogLine.ts)[p]? = some l.ts := by
    rw [List.getElem?_map, hget]
    rfl
  have hstep : follow s skip (l.raw :: rest) =
      match s.cursor.step skip l.ts with
      | (skip', false) => follow s skip' rest
      | (skip', true) =>
          if l.isFinished then (s.print l.ts l.text, true)
          else follow (s.print l.ts l.text) skip' rest := by
    rw [follow, partition_raw hlog hl]
    rfl
  rcases Nat.lt_or_ge p n with hp | hp
  · left
    rcases h.pass.dropped hlog.sorted hts hp with ⟨skip', hdrop, hpass⟩
    rw [hstep, hdrop]
    exact ⟨n, skip', s, rfl, ⟨hpass, h.printed, h.unfinished⟩, (Nat.max_eq_left hp).symm,
      (if_neg (lt_irrefl n)).symm⟩
  · have hpn : p = n := Nat.le_antisymm h.pass.le hp
    subst hpn
    rcases h.pass.taken hlog.sorted hts with ⟨htake, hpass⟩
    have hprinted : (s.print l.ts l.text).printed =
        (log.take (p + 1)).map LogLine.text := by
      rw [List.take_add_one, hget, List.map_append, ← h.printed]
      rfl
    rw [hstep, htake]
    dsimp only
    cases hfin : l.isFinished with
    | true =>
        right
        exact ⟨s.print l.ts l.text, rfl, p, l, Nat.le_refl p, Nat.lt_succ_self p, hget, hfin,
          h.unfinished, hprinted⟩
    | false =>
        left
        refine ⟨p + 1, skip, s.print l.ts l.text, rfl, ⟨hpass, hprinted, ?_⟩, by omega,
          (if_pos (Nat.lt_succ_self p)).symm⟩
        intro l' hl'
        rw [List.take_add_one, hget] at hl'
        rcases List.mem_append.mp hl' with hl' | hl'
        · exact h.unfinished l' hl'
        · rw [List.mem_singleton.mp hl']
          exact hfin

/-- A run of delivered lines is printed up to its end, or up to the marker. -/
theorem follow_lines {ls : List LogLine} {p n skip : Nat} {s : State}
    (h : Reads log p n skip s) (hls : ls <+: log.drop p) (tail : List String) :
    (exists n' skip' s', follow s skip (ls.map LogLine.raw ++ tail) = follow s' skip' tail ∧
      Reads log (p + ls.length) n' skip' s' ∧ n' = max n (p + ls.length) ∧
      s'.lostSince = if n < n' then none else s.lostSince) ∨
    exists s', follow s skip (ls.map LogLine.raw ++ tail) = (s', true) ∧
      PrintedAll log n (p + ls.length) s' := by
  induction ls generalizing p n skip s with
  | nil =>
      left
      exact ⟨n, skip, s, rfl, h, (Nat.max_eq_left h.pass.le).symm, (if_neg (lt_irrefl n)).symm⟩
  | cons l rest ih =>
      rcases hls with ⟨suffix, hsuffix⟩
      have hget : log[p]? = some l := by
        have hhead : (log.drop p)[0]? = some l := by
          rw [← hsuffix]
          rfl
        rwa [List.getElem?_drop, Nat.add_zero] at hhead
      rcases follow_cons hlog h hget (rest.map LogLine.raw ++ tail) with hnext | hdone
      · rcases hnext with ⟨n', skip', s', heq, hreads, hn', hlost⟩
        have hrest : rest <+: log.drop (p + 1) := by
          refine ⟨suffix, ?_⟩
          rw [← List.drop_drop, ← hsuffix]
          rfl
        rw [List.map_cons, List.cons_append, heq, List.length_cons]
        have hlength : p + (rest.length + 1) = p + 1 + rest.length := by omega
        rw [hlength]
        rcases ih hreads hrest with ⟨n'', skip'', s'', heq', hreads', hn'', hlost'⟩ | hdone
        · left
          refine ⟨n'', skip'', s'', heq', hreads', by omega, ?_⟩
          rw [hlost', hlost]
          split_ifs <;> first | rfl | omega
        · right
          rcases hdone with ⟨s'', heq', f, l', hlow, hhigh, hfound⟩
          exact ⟨s'', heq', f, l', by omega, hhigh, hfound⟩
      · right
        rcases hdone with ⟨s', heq, f, l', hlow, hhigh, hfound⟩
        rw [List.length_cons]
        exact ⟨s', heq, f, l', hlow, by omega, hfound⟩

end Log

/-!
## The text of one attempt
-/

theorem streamLines_emitted {ls : List LogLine} (tail : List LogLine)
    (hraw : forall l, l ∈ ls -> forall c, c ∈ l.raw.toList -> Text.isNewline c = false) :
    Text.streamLines (emitted (ls ++ tail)) =
      ls.map LogLine.raw ++ Text.streamLines (emitted tail) := by
  have hchars : (emitted (ls ++ tail)).toList =
      (ls.map fun l => l.raw.toList).flatMap (fun l => l ++ ['\n']) ++
        (emitted tail).toList := by
    unfold emitted
    rw [String.toList_ofList, String.toList_ofList, List.flatMap_append, List.flatMap_map]
  have hlines : forall l, l ∈ ls.map (fun l => l.raw.toList) -> forall c, c ∈ l ->
      Text.isNewline c = false := by
    intro l hl
    rcases List.mem_map.mp hl with ⟨l', hl', rfl⟩
    exact hraw l' hl'
  unfold Text.streamLines
  rw [hchars, Text.linesFrom_lines rfl hlines, List.map_append, List.map_map]
  congr 1
  refine List.map_congr_left ?_
  intro l _
  exact String.ofList_toList

theorem isNewline_of_isBoundary {c : Char} (h : Text.isBoundary c = false) :
    Text.isNewline c = false := by
  unfold Text.isNewline
  rw [Bool.or_eq_false_iff]
  constructor
  · rw [beq_eq_false_iff_ne]
    rintro rfl
    cases h
  · rw [beq_eq_false_iff_ne]
    rintro rfl
    cases h

/-- A line without a carriage return is read as it was written. -/
theorem WellFormed.raw_chars {log : List LogLine} (h : WellFormed log) {l : LogLine}
    (hl : l ∈ log) (hreturn : '\r' ∉ l.text.toList) :
    forall c, c ∈ l.raw.toList -> Text.isNewline c = false := by
  intro c hc
  unfold LogLine.raw at hc
  rw [String.toList_append, String.toList_append] at hc
  rcases List.mem_append.mp hc with hc | hc
  · rcases List.mem_append.mp hc with hc | hc
    · exact isNewline_of_isBoundary (h.stamps l hl c hc).2
    · have hblank : c = ' ' := by simpa using hc
      rw [hblank]
      rfl
  · unfold Text.isNewline
    rw [Bool.or_eq_false_iff, beq_eq_false_iff_ne, beq_eq_false_iff_ne]
    constructor
    · intro hline
      exact h.texts l hl (hline ▸ hc)
    · intro hline
      exact hreturn (hline ▸ hc)

/-- What is printed is part of a line that was read. -/
theorem mem_follow_printed {raws : List String} {s : State} {skip : Nat} {line : String}
    (h : line ∈ (follow s skip raws).1.printed) :
    line ∈ s.printed ∨ exists raw, raw ∈ raws ∧ line = (Text.partition raw).2 := by
  induction raws generalizing s skip with
  | nil => exact Or.inl h
  | cons raw rest ih =>
      rw [follow] at h
      dsimp only at h
      split at h
      · rcases ih h with h | ⟨raw', hraw', heq⟩
        · exact Or.inl h
        · exact Or.inr ⟨raw', List.mem_cons_of_mem raw hraw', heq⟩
      · have hprint : line ∈ (s.print (Text.partition raw).1 (Text.partition raw).2).printed ->
            line ∈ s.printed ∨ exists raw', raw' ∈ raw :: rest ∧
              line = (Text.partition raw').2 := by
          intro hline
          rcases List.mem_append.mp hline with hline | hline
          · exact Or.inl hline
          · exact Or.inr ⟨raw, List.mem_cons_self, List.mem_singleton.mp hline⟩
        split_ifs at h
        · exact hprint h
        · rcases ih h with h | ⟨raw', hraw', heq⟩
          · exact hprint h
          · exact Or.inr ⟨raw', List.mem_cons_of_mem raw hraw', heq⟩

theorem notMem_return_of_printed {text : String} {s : State} {skip : Nat}
    (hs : s.printed = []) {line : String}
    (h : line ∈ (follow s skip (Text.streamLines text)).1.printed) : '\r' ∉ line.toList := by
  intro hreturn
  rcases mem_follow_printed h with hold | ⟨raw, hraw, rfl⟩
  · rw [hs] at hold
    cases hold
  · have hmem := Text.mem_partition_snd hreturn
    unfold Text.streamLines at hraw
    rcases List.mem_map.mp hraw with ⟨chars, hchars, rfl⟩
    rw [String.toList_ofList] at hmem
    have hend := Text.notEnd_of_mem_linesFrom (fun c hc => by cases hc) hchars '\r' hmem
    cases hend

theorem reads_start (log : List LogLine) :
    Reads log 0 0 State.start.cursor.atLast State.start := by
  constructor
  · apply (Cursor.marks_start _).pass
    · intro _
      rfl
    · intro t ht
      cases ht
  · rfl
  · intro l hl
    cases hl

theorem attempt_returned {s s' : State} {a : Attempt} (h : attempt s a = .returned s') :
    follow s s.cursor.atLast (Text.streamLines a.text) = (s', true) := by
  unfold attempt at h
  split at h
  · rename_i s'' heq
    injection h with h
    rw [heq, h]
  · split at h
    all_goals first | (unfold lost at h; dsimp only at h; split_ifs at h) | cases h

/--
Without a lost connection, every line up to the finished marker is printed as it
was written exactly when none of them holds a carriage return.
-/
theorem attempt_prints_iff {log before after : List LogLine} {fin : LogLine}
    (hlog : WellFormed log) (hsplit : log = before ++ fin :: after)
    (hbefore : forall l, l ∈ before -> l.isFinished = false)
    (hfin : fin.isFinished = true) (ending : Ending) :
    (exists s, attempt State.start ⟨emitted log, ending⟩ = .returned s ∧
      s.printed = (before ++ [fin]).map LogLine.text) <->
      forall l, l ∈ before ++ [fin] -> '\r' ∉ l.text.toList := by
  constructor
  · intro h
    rcases h with ⟨s, hs, hprinted⟩
    intro l hl
    have hfollow := attempt_returned hs
    have hmem : l.text ∈ (follow State.start State.start.cursor.atLast
        (Text.streamLines (emitted log))).1.printed := by
      rw [hfollow, hprinted]
      exact List.mem_map_of_mem hl
    exact notMem_return_of_printed rfl hmem
  · intro hreturn
    have hlog' : log = (before ++ [fin]) ++ after := by
      rw [hsplit, List.append_assoc]
      rfl
    have hlines : Text.streamLines (emitted log) =
        (before ++ [fin]).map LogLine.raw ++ Text.streamLines (emitted after) := by
      rw [hlog']
      apply streamLines_emitted
      intro l hl
      exact hlog.raw_chars (hlog' ▸ List.mem_append_left _ hl) (hreturn l hl)
    have hfirst : log[before.length]? = some fin := by
      rw [hsplit, List.getElem?_append_right (Nat.le_refl _), Nat.sub_self]
      rfl
    have hpre : before ++ [fin] <+: log.drop 0 := ⟨after, hlog'.symm⟩
    have hfinMem : fin ∈ log.take ((before ++ [fin]).length) := by
      rw [hlog', List.take_left]
      exact List.mem_append_right _ (List.mem_singleton.mpr rfl)
    rcases follow_lines hlog (reads_start log) hpre (Text.streamLines (emitted after)) with
      ⟨n, skip, s, _, hreads, hn, _⟩ | ⟨s, heq, f, l, _, _, hget, hl, hno, hprinted⟩
    · -- The marker is among the delivered lines, so it cannot be passed over.
      have hunfinished := hreads.unfinished fin
      rw [hn, Nat.zero_add, Nat.zero_max] at hunfinished
      rw [hunfinished hfinMem] at hfin
      cases hfin
    · have hf : f = before.length := by
        rcases Nat.lt_trichotomy f before.length with hlt | heq | hgt
        · rw [hsplit, List.getElem?_append_left hlt] at hget
          rw [hbefore l (List.mem_of_getElem? hget)] at hl
          cases hl
        · exact heq
        · have hmem : fin ∈ log.take f := by
            apply List.mem_of_getElem? (i := before.length)
            rw [List.getElem?_take, if_pos hgt, hfirst]
          rw [hno fin hmem] at hfin
          cases hfin
      refine ⟨s, ?_, ?_⟩
      · unfold attempt
        rw [hlines, heq]
      · have htake : log.take (f + 1) = before ++ [fin] := by
          rw [hf, hlog']
          exact List.take_left' (by simp)
        rw [hprinted, htake]

def finishedLine : LogLine :=
  ⟨"2026-01-02T03:04:06.000000000Z", "[ostia] finished with exit 0"⟩

/-- A progress line that was drawn over, and the finished marker. -/
def progressLog : List LogLine :=
  [⟨"2026-01-02T03:04:05.000000000Z", "0%\r50%"⟩, finishedLine]

theorem progressLog_wellFormed : WellFormed progressLog := by
  constructor
  · decide +kernel
  · decide +kernel
  · decide +kernel

/-- The rest of the progress line is read as a timestamp that no later line reaches. -/
theorem attempt_progressLog :
    WellFormed progressLog ∧ finishedLine ∈ progressLog ∧ finishedLine.isFinished = true ∧
      exists s, attempt State.start ⟨emitted progressLog, .alive⟩ = .running s ∧
        s.printed = ["0%", ""] := by
  have hrun : (match attempt State.start ⟨emitted progressLog, .alive⟩ with
      | .running s => decide (s.printed = ["0%", ""])
      | _ => false) = true := by decide +kernel
  refine ⟨progressLog_wellFormed, by decide, by decide +kernel, ?_⟩
  split at hrun
  · rename_i s hs
    exact ⟨s, hs, of_decide_eq_true hrun⟩
  · cases hrun

/-- Two lines of one timestamp before the finished marker. -/
def repeatedLog : List LogLine :=
  [⟨"2026-01-02T03:04:05.000000000Z", "[ostia] step build (1/1)"⟩,
    ⟨"2026-01-02T03:04:05.000000000Z", "compiling"⟩, finishedLine]

theorem repeatedLog_wellFormed : WellFormed repeatedLog := by
  constructor
  · decide +kernel
  · decide +kernel
  · decide +kernel

theorem attempt_repeatedLog :
    (exists s, attempt State.start ⟨emitted repeatedLog, .alive⟩ = .returned s ∧
      s.printed = ["[ostia] step build (1/1)", "compiling", "[ostia] finished with exit 0"]) <->
      forall l, l ∈ repeatedLog -> '\r' ∉ l.text.toList := by
  have hbefore : forall l, l ∈ repeatedLog.take 2 -> l.isFinished = false := by decide +kernel
  exact @attempt_prints_iff repeatedLog (repeatedLog.take 2) [] finishedLine
    repeatedLog_wellFormed rfl hbefore (by decide +kernel) .alive

/-!
## Resuming a log
-/

/-- One resume: the place in the log from which lines are yielded, how many, and the end. -/
structure Resume where
  place : Nat
  count : Nat
  ending : Ending

def Resume.attempt (log : List LogLine) (r : Resume) : Attempt :=
  ⟨emitted ((log.drop r.place).take r.count), r.ending⟩

/-- A resume starts at or before the first line whose timestamp is at least the since-time. -/
def StartsBefore (log : List LogLine) (since : Option String) (place : Nat) : Prop :=
  match since with
  | none => place = 0
  | some t => forall l, l ∈ log.take place -> l.ts < t

/-- Every resume of a run starts where the since-time of its state allows. -/
def Honest (log : List LogLine) (s : State) : List Resume -> Prop
  | [] => True
  | r :: rest =>
      StartsBefore log s.cursor.last r.place ∧
        forall s', attempt s (r.attempt log) = .running s' -> Honest log s' rest

/-- How many lines were yielded, each counted once, after one more resume. -/
def reachOne (log : List LogLine) (n : Nat) (r : Resume) : Nat :=
  max n (r.place + min r.count (log.length - r.place))

/-- How many lines were yielded, each counted once. -/
def reach (log : List LogLine) (rs : List Resume) : Nat := rs.foldl (reachOne log) 0

/-- The clock at the loss of the connection that ended an attempt. -/
def Ending.lost : Ending -> Option (Nat × Nat)
  | .lostLogs first now => some (first, now)
  | .lostStatus first now => some (first, now)
  | _ => none

/-- Whether the log was read to its end. -/
def Ending.logEnded : Ending -> Bool
  | .lostStatus _ _ => true
  | .alive => true
  | .dead => true
  | _ => false

/-- A resume after n yielded lines, as a try to reach the cluster. -/
def Resume.try (log : List LogLine) (n : Nat) (r : Resume) : Try :=
  ⟨n < reachOne log n r || r.ending.logEnded, r.ending.lost⟩

def tries (log : List LogLine) (n : Nat) : List Resume -> List Try
  | [] => []
  | r :: rest => r.try log n :: tries log (reachOne log n r) rest

/-- The last resume found the pod dead, failed, or found the connection lost for good. -/
def GivesUp (log : List LogLine) (rs : List Resume) : Prop :=
  (exists r, rs.getLast? = some r ∧ (r.ending = .dead ∨ r.ending = .failed)) ∨
    Try.LostFor lostForGood (tries log 0 rs)

/-- No resume yielded the marker, and none was the last one. -/
def GoesOn (log : List LogLine) (rs : List Resume) : Prop :=
  forall q, q <+: rs -> (forall l, l ∈ log.take (reach log q) -> l.isFinished = false) ∧
    ¬ GivesUp log q

/-- Between two attempts the first n lines were printed, and none of them is the marker. -/
structure Printed (log : List LogLine) (n : Nat) (s : State) : Prop where
  marks : Cursor.Marks (log.map LogLine.ts) n s.cursor
  printed : s.printed = (log.take n).map LogLine.text
  unfinished : forall l, l ∈ log.take n -> l.isFinished = false

/--
What a run over resumes has printed: while it goes on, the yielded lines; when it
returns, the lines up to the marker, with the first resume that yielded it; when
it raises, the lines yielded before the first resume that gave up, and with it.
-/
def ExactlyOnce (log : List LogLine) (rs : List Resume) : Outcome -> Prop
  | .running s => GoesOn log rs ∧ Printed log (reach log rs) s
  | .returned s => exists q r, q ++ [r] <+: rs ∧ GoesOn log q ∧
      PrintedAll log (reach log q) (reach log (q ++ [r])) s
  | .raised s => exists q r, q ++ [r] <+: rs ∧ GoesOn log q ∧ GivesUp log (q ++ [r]) ∧
      Printed log (reach log (q ++ [r])) s

theorem reach_snoc (log : List LogLine) (rs : List Resume) (r : Resume) :
    reach log (rs ++ [r]) = reachOne log (reach log rs) r := by
  unfold reach
  rw [List.foldl_append]
  rfl

theorem tries_snoc (log : List LogLine) (n : Nat) (rs : List Resume) (r : Resume) :
    tries log n (rs ++ [r]) =
      tries log n rs ++ [r.try log (rs.foldl (reachOne log) n)] := by
  induction rs generalizing n with
  | nil => rfl
  | cons r' rest ih =>
      rw [List.cons_append, tries, ih]
      rfl

/-- The state between attempts: what was printed, and since when the connection is lost. -/
structure Between (log : List LogLine) (rs : List Resume) (s : State) : Prop where
  goesOn : GoesOn log rs
  printed : Printed log (reach log rs) s
  lostSince : s.lostSince = Try.lostSince (tries log 0 rs)

/-- The state between attempts does not depend on when the connection was lost. -/
theorem Printed.of_lostSince {log : List LogLine} {n : Nat} {s : State}
    (h : Printed log n s) (t : Option Nat) : Printed log n { s with lostSince := t } :=
  ⟨h.marks, h.printed, h.unfinished⟩

theorem goesOn_nil (log : List LogLine) : GoesOn log [] := by
  intro q hq
  rw [List.prefix_nil.mp hq]
  constructor
  · intro l hl
    cases hl
  · intro h
    rcases h with ⟨r, hr, _⟩ | ⟨_, t, _, _, ht, _⟩
    · cases hr
    · cases ht

theorem Between.start (log : List LogLine) : Between log [] State.start := by
  refine ⟨goesOn_nil log, ⟨Cursor.marks_start _, rfl, ?_⟩, rfl⟩
  intro l hl
  cases hl

theorem GoesOn.snoc {log : List LogLine} {rs : List Resume} {r : Resume} (h : GoesOn log rs)
    (hunfinished : forall l, l ∈ log.take (reach log (rs ++ [r])) -> l.isFinished = false)
    (hgives : ¬ GivesUp log (rs ++ [r])) : GoesOn log (rs ++ [r]) := by
  intro q hq
  rcases List.prefix_concat_iff.mp hq with heq | hbefore
  · rw [heq]
    exact ⟨hunfinished, hgives⟩
  · exact h q hbefore

theorem givesUp_snoc {log : List LogLine} {rs : List Resume} {r : Resume} :
    GivesUp log (rs ++ [r]) <-> (r.ending = .dead ∨ r.ending = .failed) ∨
      exists clock, r.ending.lost = some clock ∧ lostForGood ≤ clock.2 -
        (if (r.try log (reach log rs)).progress then none
          else Try.lostSince (tries log 0 rs)).getD clock.1 := by
  unfold GivesUp
  rw [tries_snoc, Try.lostFor_snoc, List.getLast?_concat]
  simp only [Option.some_inj, exists_eq_left']
  rfl

/-- What one more resume makes of a run. -/
def Resumed (log : List LogLine) (rs : List Resume) (r : Resume) : Outcome -> Prop
  | .running s => Between log (rs ++ [r]) s
  | .returned s => PrintedAll log (reach log rs) (reach log (rs ++ [r])) s
  | .raised s => GivesUp log (rs ++ [r]) ∧ Printed log (reach log (rs ++ [r])) s

theorem Between.lost {log : List LogLine} {rs : List Resume} {s s' : State} {r : Resume}
    (h : Between log rs s) (hprinted : Printed log (reachOne log (reach log rs) r) s')
    {first now : Nat} (hlost : r.ending.lost = some (first, now))
    (hsince : s'.lostSince =
      if (r.try log (reach log rs)).progress then none else s.lostSince) :
    Resumed log rs r (LogStream.lost s' first now) := by
  rw [← reach_snoc] at hprinted
  rw [h.lostSince] at hsince
  unfold LogStream.lost
  by_cases hlong : lostForGood ≤ now - s'.lostSince.getD first
  · rw [if_pos hlong]
    refine ⟨givesUp_snoc.mpr (Or.inr ⟨_, hlost, ?_⟩), hprinted⟩
    rw [← hsince]
    exact hlong
  · rw [if_neg hlong]
    refine ⟨h.goesOn.snoc hprinted.unfinished ?_, hprinted.of_lostSince _, ?_⟩
    · rw [givesUp_snoc, ← hsince]
      intro hgives
      rcases hgives with (hdead | hfailed) | ⟨clock, hclock, hlimit⟩
      · rw [hdead] at hlost
        cases hlost
      · rw [hfailed] at hlost
        cases hlost
      · rw [hlost, Option.some_inj] at hclock
        rw [← hclock] at hlimit
        exact hlong hlimit
    · rw [tries_snoc, Try.lostSince_snoc, Try.next]
      show some (s'.lostSince.getD first) = r.ending.lost.map fun clock =>
        (if (r.try log (reach log rs)).progress then none
          else Try.lostSince (tries log 0 rs)).getD clock.1
      rw [hlost, ← hsince]
      rfl

theorem WellFormed.raw_chars_of_noBreak {log : List LogLine} (hlog : WellFormed log)
    (hbreak : forall l, l ∈ log -> forall c, c ∈ l.text.toList -> Text.isBoundary c = false)
    {l : LogLine} (hl : l ∈ log) :
    forall c, c ∈ l.raw.toList -> Text.isNewline c = false := by
  apply hlog.raw_chars hl
  intro hreturn
  have hbad := hbreak l hl '\r' hreturn
  cases hbad

section Resumes

variable {log : List LogLine} (hlog : WellFormed log)
  (hbreak : forall l, l ∈ log -> forall c, c ∈ l.text.toList -> Text.isBoundary c = false)

include hlog hbreak

/-- The yielded lines are printed up to their end, or up to the marker. -/
theorem follow_resume {n : Nat} {s : State} (h : Printed log n s) {r : Resume}
    (hr : StartsBefore log s.cursor.last r.place) :
    (exists s', follow s s.cursor.atLast (Text.streamLines (r.attempt log).text) = (s', false) ∧
      Printed log (reachOne log n r) s' ∧
      s'.lostSince = if n < reachOne log n r then none else s.lostSince) ∨
    exists s', follow s s.cursor.atLast (Text.streamLines (r.attempt log).text) = (s', true) ∧
      PrintedAll log n (reachOne log n r) s' := by
  have hreads : Reads log r.place n s.cursor.atLast s := by
    refine ⟨h.marks.pass ?_ ?_, h.printed, h.unfinished⟩
    · intro hnone
      rw [hnone] at hr
      exact hr
    · intro t ht i x hi hget
      rw [ht] at hr
      rw [List.getElem?_map] at hget
      rcases Option.map_eq_some_iff.mp hget with ⟨l, hl, rfl⟩
      apply hr l
      apply List.mem_of_getElem? (i := i)
      rw [List.getElem?_take, if_pos hi, hl]
  have hlines : Text.streamLines (r.attempt log).text =
      ((log.drop r.place).take r.count).map LogLine.raw ++ [] := by
    have hraw : forall l, l ∈ (log.drop r.place).take r.count ->
        forall c, c ∈ l.raw.toList -> Text.isNewline c = false := by
      intro l hl
      exact hlog.raw_chars_of_noBreak hbreak (List.mem_of_mem_drop (List.mem_of_mem_take hl))
    have hall := streamLines_emitted [] hraw
    rw [List.append_nil] at hall
    exact hall
  have hlength : r.place + ((log.drop r.place).take r.count).length =
      r.place + min r.count (log.length - r.place) := by
    rw [List.length_take, List.length_drop]
  rw [hlines]
  rcases follow_lines hlog hreads (List.take_prefix r.count (log.drop r.place)) [] with
    ⟨n', skip, s', heq, hreads', hn', hlost⟩ | ⟨s', heq, f, l, hlow, hhigh, hfound⟩
  · rw [hlength] at hn'
    left
    rw [hn'] at hreads' hlost
    exact ⟨s', heq, ⟨hreads'.pass.marks, hreads'.printed, hreads'.unfinished⟩, hlost⟩
  · rw [hlength] at hhigh
    exact Or.inr ⟨s', heq, f, l, hlow, lt_of_lt_of_le hhigh (Nat.le_max_right _ _), hfound⟩

/-- One more resume goes on, returns with the marker, or gives the run up. -/
theorem attempt_resumed {rs : List Resume} {s : State} (h : Between log rs s) {r : Resume}
    (hr : StartsBefore log s.cursor.last r.place) :
    Resumed log rs r (attempt s (r.attempt log)) := by
  have hend : (r.attempt log).ending = r.ending := rfl
  unfold attempt
  rcases follow_resume hlog hbreak h.printed hr with ⟨s', heq, hprinted, hlost⟩ | ⟨s', heq, hall⟩
  · have hsnoc := hprinted
    rw [← reach_snoc] at hsnoc
    rw [heq]
    dsimp only
    rw [hend]
    cases hending : r.ending with
    | lostLogs first now =>
        have hprogress : (r.try log (reach log rs)).progress =
            decide (reach log rs < reachOne log (reach log rs) r) := by
          rw [Resume.try, hending]
          exact Bool.or_false _
        apply h.lost hprinted
        · rw [hending]
          rfl
        · rw [hprogress, hlost]
          simp
    | lostStatus first now =>
        have hprogress : (r.try log (reach log rs)).progress = true := by
          rw [Resume.try, hending]
          exact Bool.or_true _
        apply h.lost (hprinted.of_lostSince none)
        · rw [hending]
          rfl
        · rw [hprogress]
          rfl
    | alive =>
        refine ⟨h.goesOn.snoc hsnoc.unfinished ?_, hsnoc.of_lostSince none, ?_⟩
        · rw [givesUp_snoc, hending]
          simp [Ending.lost]
        · rw [tries_snoc, Try.lostSince_snoc, Try.next, Resume.try, hending]
          rfl
    | dead => exact ⟨givesUp_snoc.mpr (Or.inl (Or.inl hending)), hsnoc.of_lostSince none⟩
    | failed => exact ⟨givesUp_snoc.mpr (Or.inl (Or.inr hending)), hsnoc⟩
  · rw [← reach_snoc] at hall
    rw [heq]
    exact hall

/-- Whatever is lost and resumed, every line is printed once and in order. -/
theorem run_exactlyOnce {before rs : List Resume} {s : State} (h : Between log before s)
    (hrs : Honest log s rs) :
    ExactlyOnce log (before ++ rs) (run s (rs.map (Resume.attempt log))) := by
  induction rs generalizing before s with
  | nil =>
      rw [List.append_nil]
      exact ⟨h.goesOn, h.printed⟩
  | cons r rest ih =>
      have hone := attempt_resumed hlog hbreak h hrs.1
      have hsplit : before ++ r :: rest = before ++ [r] ++ rest := by
        rw [List.append_assoc]
        rfl
      have hpre : before ++ [r] <+: before ++ r :: rest := ⟨rest, hsplit.symm⟩
      rw [List.map_cons, run]
      cases hattempt : attempt s (r.attempt log) with
      | running s' =>
          rw [hattempt] at hone
          rw [hsplit]
          exact ih hone (hrs.2 s' hattempt)
      | returned s' =>
          rw [hattempt] at hone
          exact ⟨before, r, hpre, h.goesOn, hone⟩
      | raised s' =>
          rw [hattempt] at hone
          exact ⟨before, r, hpre, h.goesOn, hone⟩

end Resumes

end LogStream
end Dev
end Ostia

import Mathlib.Data.Finset.Card
import Ostia.Dev.LogStream

/-!
# Polling the logs of several pods

The logs of the ranks of a run are polled with one since-time, the second of the
smallest last timestamp, so that each poll repeats lines of the pods that are
ahead.  Each pod drops what it printed before.
-/

namespace Ostia
namespace Dev

open Foundation
open LogStream (LogLine)

namespace PollRanks

/-!
## The loop
-/

structure State where
  /-- For each pod the timestamp of its last line and how many lines of it were printed. -/
  seen : String -> Cursor String
  finished : Finset String
  lostSince : Option Nat
  lastStep : Option String
  /-- The lines in the order of printing, each with the rank of its pod. -/
  printed : List (Nat × String)

def State.start : State := ⟨fun _ => Cursor.start, ∅, none, none, []⟩

/-- The output of a run. -/
def State.output (s : State) : List String :=
  s.printed.map fun p => "[rank " ++ toString p.1 ++ "] " ++ p.2

/-- The first 19 characters of a timestamp: its second. -/
def second (ts : String) : String := String.ofList (ts.toList.take 19)

/-- The second from which the next poll asks for lines, none before every pod has printed. -/
def sinceSecond (pods : List String) (s : State) : Option String := do
  let stamps ← pods.mapM fun name => (s.seen name).last
  let smallest ← stamps.min?
  pure (second smallest)

/-- The pod that the tag of a line names. -/
def podOf (tag : String) : String :=
  let chars := tag.toList
  let rest := if "[pod/".toList.isPrefixOf chars then chars.drop 5 else chars
  String.ofList (rest.takeWhile (· != '/'))

def State.print (pods : List String) (s : State) (name ts line : String) : State :=
  { seen := Function.update s.seen name ((s.seen name).take ts)
    finished :=
      if Text.startsWith line LogStream.finishedMarker then insert name s.finished
      else s.finished
    lostSince := s.lostSince
    lastStep := LogStream.stepOf line s.lastStep
    printed := s.printed ++ [(pods.idxOf name, line)] }

@[simp] theorem State.print_lostSince (pods : List String) (s : State) (name ts line : String) :
    (s.print pods name ts line).lostSince = s.lostSince := rfl

def pollLine (pods : List String) (s : State × (String -> Nat)) (raw : String) :
    State × (String -> Nat) :=
  let parts := Text.partition raw
  let name := podOf parts.1
  if name ∈ pods then
    let entry := Text.partition parts.2
    match (s.1.seen name).step (s.2 name) entry.1 with
    | (skip, false) => (s.1, Function.update s.2 name skip)
    | (skip, true) => (s.1.print pods name entry.1 entry.2, Function.update s.2 name skip)
  else s

/-- What reading the status of the run's pods gives. -/
inductive Status where
  | lost (first now : Nat)
  | failed
  /-- Whether a pod is dead, and whether one is missing. -/
  | pods (dead missing : Bool)

inductive Logs where
  | text (stdout : String)
  | lost (first now : Nat)
  | failed

structure Poll where
  status : Status
  logs : Logs

inductive Outcome where
  | running (s : State)
  | returned (s : State)
  | raised (s : State)

def lost (s : State) (first now : Nat) : Outcome :=
  let since := s.lostSince.getD first
  if now - since ≥ LogStream.lostForGood then .raised s
  else .running { s with lostSince := some since }

def readLines (pods : List String) (s : State) (lines : List String) : State :=
  (lines.foldl (pollLine pods) (s, fun name => (s.seen name).atLast)).1

def Logs.lines : Logs -> List String
  | .text stdout => Text.splitlines stdout
  | _ => []

def poll (pods : List String) (s : State) (p : Poll) : Outcome :=
  match p.status with
  | .lost first now => lost s first now
  | .failed => .raised s
  | .pods dead missing =>
      let s' := readLines pods s p.logs.lines
      if s'.finished.card = pods.length then .returned s'
      else if dead || missing then .raised s'
      else
        match p.logs with
        | .lost first now => lost s' first now
        | .failed => .raised s'
        | .text _ => .running { s' with lostSince := none }

def run (pods : List String) (s : State) : List Poll -> Outcome
  | [] => .running s
  | p :: rest =>
      match poll pods s p with
      | .running s' => run pods s' rest
      | o => o

/-!
## Delivered lines
-/

/-- A line as a selector prints it, tagged with its pod and container. -/
def tagged (container : String) (entry : String × LogLine) : String :=
  "[pod/" ++ entry.1 ++ "/" ++ container ++ "]" ++ " " ++ entry.2.raw

def stdout (container : String) (lines : List (String × LogLine)) : String :=
  String.ofList (lines.flatMap fun entry => (tagged container entry).toList ++ ['\n'])

/-- The lines of one pod among the delivered ones. -/
def linesOf (name : String) (lines : List (String × LogLine)) : List LogLine :=
  (lines.filter fun entry => entry.1 = name).map Prod.snd

/-- A name without a blank, a slash or a line boundary. -/
def Plain (name : String) : Prop :=
  forall c, c ∈ name.toList -> c ≠ ' ' ∧ c ≠ '/' ∧ Text.isBoundary c = false

/-- The pods of a run and their logs. -/
structure Setting (pods : List String) (container : String) (logs : String -> List LogLine) :
    Prop where
  nodup : pods.Nodup
  plainNames : forall name, name ∈ pods -> Plain name
  plainContainer : Plain container
  wellFormed : forall name, name ∈ pods -> LogStream.WellFormed (logs name)
  noBreak : forall name, name ∈ pods -> forall l, l ∈ logs name ->
    forall c, c ∈ l.text.toList -> Text.isBoundary c = false

theorem second_lt {a b : String} (h : second a < second b) : a < b := by
  have htake : forall (n : Nat) (xs ys : List Char), xs.take n < ys.take n -> xs < ys := by
    intro n
    induction n with
    | zero =>
        intro xs ys h
        simp at h
    | succ n ih =>
        intro xs ys h
        cases xs with
        | nil =>
            cases ys with
            | nil => simp at h
            | cons y ys => exact List.nil_lt_cons y ys
        | cons x xs =>
            cases ys with
            | nil => simp at h
            | cons y ys =>
                rw [List.take_succ_cons, List.take_succ_cons, List.cons_lt_cons_iff] at h
                rw [List.cons_lt_cons_iff]
                exact h.imp_right (fun h => ⟨h.1, ih _ _ h.2⟩)
  unfold second at h
  rw [String.lt_iff_toList_lt, String.toList_ofList, String.toList_ofList] at h
  rw [String.lt_iff_toList_lt]
  exact htake 19 _ _ h

section Lines

variable {pods : List String} {container : String} {logs : String -> List LogLine}
  (hset : Setting pods container logs)

include hset

theorem tagged_parts {name : String} (hname : name ∈ pods) (l : LogLine) :
    podOf (Text.partition (tagged container (name, l))).1 = name ∧
      (Text.partition (tagged container (name, l))).2 = l.raw := by
  have htag : forall c, c ∈ ("[pod/" ++ name ++ "/" ++ container ++ "]").toList -> c ≠ ' ' := by
    intro c hc
    simp only [String.toList_append, List.mem_append] at hc
    rcases hc with (((hc | hc) | hc) | hc) | hc
    · revert hc
      revert c
      decide
    · exact (hset.plainNames name hname c hc).1
    · revert hc
      revert c
      decide
    · exact (hset.plainContainer c hc).1
    · revert hc
      revert c
      decide
  have hparts : Text.partition (tagged container (name, l)) =
      ("[pod/" ++ name ++ "/" ++ container ++ "]", l.raw) :=
    Text.partition_append htag
  rw [hparts]
  refine ⟨?_, rfl⟩
  have hchars : ("[pod/" ++ name ++ "/" ++ container ++ "]").toList =
      "[pod/".toList ++ (name.toList ++ '/' :: (container.toList ++ [']'])) := by
    simp [String.toList_append]
  have hslash : forall c, c ∈ name.toList -> (c != '/') = true := by
    intro c hc
    rw [bne_iff_ne]
    exact (hset.plainNames name hname c hc).2.1
  unfold podOf
  dsimp only
  rw [hchars, if_pos (List.isPrefixOf_iff_prefix.mpr (List.prefix_append _ _))]
  have hdrop : ("[pod/".toList ++ (name.toList ++ '/' :: (container.toList ++ [']']))).drop 5 =
      name.toList ++ '/' :: (container.toList ++ [']']) := List.drop_left' rfl
  rw [hdrop, List.takeWhile_append_of_pos hslash]
  simp

theorem splitlines_stdout {lines : List (String × LogLine)}
    (hlines : forall entry, entry ∈ lines -> entry.1 ∈ pods ∧ entry.2 ∈ logs entry.1) :
    Text.splitlines (stdout container lines) = lines.map (tagged container) := by
  have hchars : (stdout container lines).toList =
      (lines.map fun entry => (tagged container entry).toList).flatMap
        (fun l => l ++ ['\n']) ++ [] := by
    unfold stdout
    rw [String.toList_ofList, List.flatMap_map, List.append_nil]
  have hboundary : forall l, l ∈ lines.map (fun entry => (tagged container entry).toList) ->
      forall c, c ∈ l -> Text.isBoundary c = false := by
    intro l hl c hc
    rcases List.mem_map.mp hl with ⟨entry, hentry, rfl⟩
    rcases hlines entry hentry with ⟨hname, hmem⟩
    unfold tagged LogStream.LogLine.raw at hc
    simp only [String.toList_append, List.mem_append] at hc
    rcases hc with ((((((hc | hc) | hc) | hc) | hc) | hc) | ((hc | hc) | hc))
    · revert hc
      revert c
      decide
    · exact (hset.plainNames _ hname c hc).2.2
    · revert hc
      revert c
      decide
    · exact (hset.plainContainer c hc).2.2
    · revert hc
      revert c
      decide
    · revert hc
      revert c
      decide
    · exact ((hset.wellFormed _ hname).stamps _ hmem c hc).2
    · revert hc
      revert c
      decide
    · exact hset.noBreak _ hname _ hmem c hc
  unfold Text.splitlines
  rw [hchars, Text.linesFrom_lines rfl hboundary, List.map_append, List.map_map]
  show _ ++ [] = _
  rw [List.append_nil]
  refine List.map_congr_left ?_
  intro entry _
  exact String.ofList_toList

theorem pollLine_tagged {name : String} (hname : name ∈ pods) {l : LogLine}
    (hl : l ∈ logs name) (s : State) (skip : String -> Nat) :
    pollLine pods (s, skip) (tagged container (name, l)) =
      match (s.seen name).step (skip name) l.ts with
      | (k, false) => (s, Function.update skip name k)
      | (k, true) => (s.print pods name l.ts l.text, Function.update skip name k) := by
  rcases tagged_parts hset hname l with ⟨htag, hraw⟩
  unfold pollLine
  dsimp only
  rw [htag, hraw, if_pos hname, LogStream.partition_raw (hset.wellFormed name hname) hl]

end Lines

/-!
## One pod
-/

/-- The lines of a pod up to p were delivered, and n of them were printed in all. -/
structure PodReads (pods : List String) (log : List LogLine) (name : String)
    (p n skip : Nat) (s : State) : Prop where
  pass : Cursor.Pass (log.map LogLine.ts) p n (s.seen name) skip
  printed : (s.printed.filter fun e => e.1 = pods.idxOf name).map Prod.snd =
    (log.take n).map LogLine.text
  finished : name ∈ s.finished <-> exists l, l ∈ log.take n ∧ l.isFinished = true

section Pod

variable {pods : List String} {container : String} {logs : String -> List LogLine}
  (hset : Setting pods container logs) {name : String} (hname : name ∈ pods)

include hset hname

/-- A line of another pod changes nothing for a pod. -/
theorem PodReads.other {x : String} (hne : x ≠ name) {l : LogLine}
    (hl : l ∈ logs name) {s : State} {skip : String -> Nat} {log : List LogLine} {p n : Nat}
    (h : PodReads pods log x p n (skip x) s) :
    PodReads pods log x p n ((pollLine pods (s, skip) (tagged container (name, l))).2 x)
      (pollLine pods (s, skip) (tagged container (name, l))).1 := by
  rw [pollLine_tagged hset hname hl]
  split
  · dsimp only
    rw [Function.update_of_ne hne]
    exact h
  · dsimp only
    rw [Function.update_of_ne hne]
    refine ⟨?_, ?_, ?_⟩
    · show Cursor.Pass _ p n (Function.update s.seen name _ x) (skip x)
      rw [Function.update_of_ne hne]
      exact h.pass
    · have hrank : pods.idxOf name ≠ pods.idxOf x := by
        intro heq
        exact hne ((List.idxOf_inj hname).mp heq).symm
      show ((s.printed ++ [(pods.idxOf name, l.text)]).filter _).map _ = _
      rw [List.filter_append, List.filter_cons_of_neg (by simpa using hrank), List.filter_nil,
        List.append_nil]
      exact h.printed
    · rw [← h.finished]
      unfold State.print
      dsimp only
      split_ifs
      · rw [Finset.mem_insert]
        exact or_iff_right hne
      · rfl

/-- A delivered line of a pod is dropped when it was printed before, and printed otherwise. -/
theorem PodReads.own {l : LogLine} {s : State} {skip : String -> Nat} {p n : Nat}
    (h : PodReads pods (logs name) name p n (skip name) s)
    (hget : (logs name)[p]? = some l) :
    PodReads pods (logs name) name (p + 1) (max n (p + 1))
      ((pollLine pods (s, skip) (tagged container (name, l))).2 name)
      (pollLine pods (s, skip) (tagged container (name, l))).1 := by
  have hsorted := (hset.wellFormed name hname).sorted
  have hts : ((logs name).map LogLine.ts)[p]? = some l.ts := by
    rw [List.getElem?_map, hget]
    rfl
  rw [pollLine_tagged hset hname (List.mem_of_getElem? hget)]
  rcases Nat.lt_or_ge p n with hp | hp
  · rcases h.pass.dropped hsorted hts hp with ⟨skip', hdrop, hpass⟩
    rw [hdrop, Nat.max_eq_left hp]
    dsimp only
    rw [Function.update_self]
    exact ⟨hpass, h.printed, h.finished⟩
  · have hpn : p = n := Nat.le_antisymm h.pass.le hp
    subst hpn
    rcases h.pass.taken hsorted hts with ⟨htake, hpass⟩
    rw [htake, Nat.max_eq_right (Nat.le_succ p)]
    dsimp only
    rw [Function.update_self]
    refine ⟨?_, ?_, ?_⟩
    · show Cursor.Pass _ _ _ (Function.update s.seen name _ name) _
      rw [Function.update_self]
      exact hpass
    · show ((s.printed ++ [(pods.idxOf name, l.text)]).filter _).map _ = _
      rw [List.filter_append, List.map_append, h.printed, List.take_add_one, hget,
        List.map_append]
      simp
    · rw [List.take_add_one, hget]
      unfold State.print
      simp only [Option.toList_some, List.mem_append, List.mem_singleton, or_and_right,
        exists_or, exists_eq_left, ← h.finished]
      show (name ∈ if l.isFinished = true then insert name s.finished else s.finished) <-> _
      split_ifs with hfin
      · simp [hfin]
      · simp [hfin]

/-- A run of delivered lines of all pods is printed once for each pod. -/
theorem PodReads.foldl {lines : List (String × LogLine)}
    (hlines : forall entry, entry ∈ lines -> entry.1 ∈ pods ∧ entry.2 ∈ logs entry.1)
    {s : State} (skip : String -> Nat) {p n : Nat}
    (h : PodReads pods (logs name) name p n (skip name) s)
    (hdeliver : linesOf name lines <+: (logs name).drop p) :
    PodReads pods (logs name) name (p + (linesOf name lines).length)
      (max n (p + (linesOf name lines).length))
      (((lines.map (tagged container)).foldl (pollLine pods) (s, skip)).2 name)
      ((lines.map (tagged container)).foldl (pollLine pods) (s, skip)).1 := by
  induction lines generalizing s skip p n with
  | nil =>
      show PodReads pods (logs name) name p (max n p) (skip name) s
      rw [Nat.max_eq_left h.pass.le]
      exact h
  | cons entry rest ih =>
      have hentry := hlines entry List.mem_cons_self
      have hrest : forall e, e ∈ rest -> e.1 ∈ pods ∧ e.2 ∈ logs e.1 :=
        fun e he => hlines e (List.mem_cons_of_mem entry he)
      rw [List.map_cons, List.foldl_cons]
      by_cases hown : entry.1 = name
      · have hlinesOf : linesOf name (entry :: rest) = entry.2 :: linesOf name rest := by
          unfold linesOf
          rw [List.filter_cons_of_pos (by simpa using hown), List.map_cons]
        rw [hlinesOf] at hdeliver ⊢
        rcases hdeliver with ⟨suffix, hsuffix⟩
        have hget : (logs name)[p]? = some entry.2 := by
          have hhead : ((logs name).drop p)[0]? = some entry.2 := by
            rw [← hsuffix]
            rfl
          rwa [List.getElem?_drop, Nat.add_zero] at hhead
        have hnext : linesOf name rest <+: (logs name).drop (p + 1) := by
          refine ⟨suffix, ?_⟩
          rw [← List.drop_drop, ← hsuffix]
          rfl
        have hstep := h.own hset hname hget
        have heq : entry = (name, entry.2) := by rw [← hown]
        rw [← heq] at hstep
        have hall := ih hrest _ hstep hnext
        rw [List.length_cons]
        have hlen : p + 1 + (linesOf name rest).length =
            p + ((linesOf name rest).length + 1) := by omega
        rw [hlen] at hall
        have hmax : max (max n (p + 1)) (p + ((linesOf name rest).length + 1)) =
            max n (p + ((linesOf name rest).length + 1)) := by omega
        rw [hmax] at hall
        exact hall
      · have hlinesOf : linesOf name (entry :: rest) = linesOf name rest := by
          unfold linesOf
          rw [List.filter_cons_of_neg (by simpa using hown)]
        rw [hlinesOf] at hdeliver ⊢
        exact ih hrest _
          (PodReads.other hset hentry.1 (Ne.symm hown) hentry.2 h) hdeliver

end Pod

/-!
## Polls
-/

/-- What one poll yields: the lines of all pods in some order, from a place in each log. -/
structure Delivery where
  lines : List (String × LogLine)
  place : String -> Nat
  count : String -> Nat

inductive Answer where
  | lines (d : Delivery)
  | lost (first now : Nat)
  | failed

structure Event where
  status : Status
  answer : Answer

def Answer.logs (container : String) : Answer -> Logs
  | .lines d => .text (stdout container d.lines)
  | .lost first now => .lost first now
  | .failed => .failed

def Event.poll (container : String) (e : Event) : Poll := ⟨e.status, e.answer.logs container⟩

/-- The lines of each pod from the start of the second that was asked for, or before it. -/
structure Delivers (pods : List String) (logs : String -> List LogLine)
    (since : Option String) (d : Delivery) : Prop where
  names : forall entry, entry ∈ d.lines -> entry.1 ∈ pods
  lines : forall name, name ∈ pods ->
    linesOf name d.lines = ((logs name).drop (d.place name)).take (d.count name)
  place : forall name, name ∈ pods ->
    match since with
    | none => d.place name = 0
    | some t => forall l, l ∈ (logs name).take (d.place name) -> second l.ts < t

/-- Every poll of a run delivers what the since-time of its state asks for, or fails. -/
def Honest (pods : List String) (container : String) (logs : String -> List LogLine)
    (s : State) : List Event -> Prop
  | [] => True
  | e :: rest =>
      (forall d, e.answer = .lines d -> Delivers pods logs (sinceSecond pods s) d) ∧
        forall s', poll pods s (e.poll container) = .running s' ->
          Honest pods container logs s' rest

/-- How many lines of each pod were yielded, each counted once, after an answer. -/
def Answer.reach (logs : String -> List LogLine) (n : String -> Nat) : Answer -> String -> Nat
  | .lines d => fun name =>
      max (n name) (d.place name + min (d.count name) ((logs name).length - d.place name))
  | _ => n

/-- How many lines of each pod were yielded, each counted once, after one more poll. -/
def reachOne (logs : String -> List LogLine) (n : String -> Nat) (e : Event) : String -> Nat :=
  match e.status with
  | .pods _ _ => e.answer.reach logs n
  | _ => n

/-- How many lines of each pod were yielded, each counted once. -/
def reach (logs : String -> List LogLine) (events : List Event) : String -> Nat :=
  events.foldl (reachOne logs) fun _ => 0

/-- The clock at the loss of the connection in a poll. -/
def Event.lost (e : Event) : Option (Nat × Nat) :=
  match e.status, e.answer with
  | .lost first now, _ => some (first, now)
  | .pods _ _, .lost first now => some (first, now)
  | _, _ => none

/-- A poll as a try to reach the cluster. -/
def Event.try (e : Event) : Try := ⟨false, e.lost⟩

/-- The last poll read the status, and the marker of every pod was yielded. -/
def Completes (pods : List String) (logs : String -> List LogLine) (events : List Event) : Prop :=
  (exists e dead missing, events.getLast? = some e ∧ e.status = .pods dead missing) ∧
    forall name, name ∈ pods ->
      exists l, l ∈ (logs name).take (reach logs events name) ∧ l.isFinished = true

/-- The last poll found a pod dead or missing, failed, or found the connection lost for good. -/
def GivesUp (events : List Event) : Prop :=
  (exists e, events.getLast? = some e ∧
    (e.status = .failed ∨ exists dead missing, e.status = .pods dead missing ∧
      ((dead || missing) = true ∨ e.answer = .failed))) ∨
    Try.LostFor LogStream.lostForGood (events.map Event.try)

/-- No poll completed the logs, and none was the last one. -/
def GoesOn (pods : List String) (logs : String -> List LogLine) (events : List Event) : Prop :=
  forall q, q <+: events -> ¬ Completes pods logs q ∧ ¬ GivesUp q

/-- Between two polls the first lines of each pod were printed. -/
structure Printed (pods : List String) (logs : String -> List LogLine) (n : String -> Nat)
    (s : State) : Prop where
  marks : forall name, name ∈ pods ->
    Cursor.Marks ((logs name).map LogLine.ts) (n name) (s.seen name)
  printed : forall name, name ∈ pods ->
    (s.printed.filter fun e => e.1 = pods.idxOf name).map Prod.snd =
      ((logs name).take (n name)).map LogLine.text
  finished : forall name, name ∈ pods -> (name ∈ s.finished <->
    exists l, l ∈ (logs name).take (n name) ∧ l.isFinished = true)
  within : s.finished ⊆ pods.toFinset

theorem Printed.start (pods : List String) (logs : String -> List LogLine) :
    Printed pods logs (fun _ => 0) State.start := by
  constructor
  · intro name _
    exact Cursor.marks_start _
  · intro name _
    rfl
  · intro name _
    simp [State.start]
  · exact Finset.empty_subset _

/--
What a run over polls has printed for each rank: while it goes on, the yielded
lines; when it returns, they hold the marker of every pod, with the first poll
that completes them; when it raises, the lines yielded before the first poll that
gave up, and with it.
-/
def ExactlyOnce (pods : List String) (logs : String -> List LogLine) (events : List Event) :
    Outcome -> Prop
  | .running s => GoesOn pods logs events ∧ Printed pods logs (reach logs events) s
  | .returned s => exists q e, q ++ [e] <+: events ∧ GoesOn pods logs q ∧
      Completes pods logs (q ++ [e]) ∧ Printed pods logs (reach logs (q ++ [e])) s
  | .raised s => exists q e, q ++ [e] <+: events ∧ GoesOn pods logs q ∧
      ¬ Completes pods logs (q ++ [e]) ∧ GivesUp (q ++ [e]) ∧
      Printed pods logs (reach logs (q ++ [e])) s

theorem reach_snoc (logs : String -> List LogLine) (events : List Event) (e : Event) :
    reach logs (events ++ [e]) = reachOne logs (reach logs events) e := by
  unfold reach
  rw [List.foldl_append]
  rfl

theorem mapM_last {pods : List String} {s : State} {stamps : List String}
    (h : pods.mapM (fun name => (s.seen name).last) = some stamps) {name : String}
    (hname : name ∈ pods) : exists last, (s.seen name).last = some last ∧ last ∈ stamps := by
  induction pods generalizing stamps with
  | nil => cases hname
  | cons x rest ih =>
      rw [List.mapM_cons] at h
      simp only [Option.bind_eq_bind, Option.bind_eq_some_iff, Option.pure_def,
        Option.some_inj] at h
      rcases h with ⟨last, hlast, stamps', hstamps', rfl⟩
      rcases List.mem_cons.mp hname with heq | hrest
      · rw [heq]
        exact ⟨last, hlast, List.mem_cons_self⟩
      · rcases ih hstamps' hrest with ⟨last', hlast', hmem⟩
        exact ⟨last', hlast', List.mem_cons_of_mem last hmem⟩

/-- The since-time is the second of a timestamp that no pod's last one precedes. -/
theorem sinceSecond_le {pods : List String} {s : State} {t : String}
    (h : sinceSecond pods s = some t) {name : String} (hname : name ∈ pods) :
    exists last smallest, (s.seen name).last = some last ∧ smallest ≤ last ∧
      t = second smallest := by
  unfold sinceSecond at h
  simp only [Option.bind_eq_bind, Option.bind_eq_some_iff, Option.pure_def,
    Option.some_inj] at h
  rcases h with ⟨stamps, hstamps, smallest, hmin, rfl⟩
  rcases mapM_last hstamps hname with ⟨last, hlast, hmem⟩
  exact ⟨last, smallest, hlast, (List.min?_eq_some_iff.mp hmin).2 last hmem, rfl⟩

theorem pollLine_within {pods : List String} (s : State × (String -> Nat)) (raw : String)
    (h : s.1.finished ⊆ pods.toFinset) :
    (pollLine pods s raw).1.finished ⊆ pods.toFinset := by
  unfold pollLine
  dsimp only
  split_ifs with hname
  · split
    · exact h
    · unfold State.print
      dsimp only
      split_ifs
      · exact Finset.insert_subset (List.mem_toFinset.mpr hname) h
      · exact h
  · exact h

theorem readLines_within {pods : List String} {s : State}
    (h : s.finished ⊆ pods.toFinset) (lines : List String) :
    (readLines pods s lines).finished ⊆ pods.toFinset := by
  have hfold : forall (lines : List String) (s : State × (String -> Nat)),
      s.1.finished ⊆ pods.toFinset ->
        (lines.foldl (pollLine pods) s).1.finished ⊆ pods.toFinset := by
    intro lines
    induction lines with
    | nil =>
        intro s hs
        exact hs
    | cons raw rest ih =>
        intro s hs
        exact ih _ (pollLine_within s raw hs)
  exact hfold lines _ h

section Run

variable {pods : List String} {container : String} {logs : String -> List LogLine}
  (hset : Setting pods container logs)

theorem Printed.podReads {n : String -> Nat} {s : State} (h : Printed pods logs n s)
    {d : Delivery} (hd : Delivers pods logs (sinceSecond pods s) d) {name : String}
    (hname : name ∈ pods) :
    PodReads pods (logs name) name (d.place name) (n name) (s.seen name).atLast s := by
  have hplace := hd.place name hname
  refine ⟨(h.marks name hname).pass ?_ ?_, h.printed name hname, h.finished name hname⟩
  · intro hnone
    cases hsince : sinceSecond pods s with
    | none =>
        rw [hsince] at hplace
        exact hplace
    | some t =>
        rcases sinceSecond_le hsince hname with ⟨last, _, hlast, _, _⟩
        rw [hnone] at hlast
        cases hlast
  · intro t ht i x hi hget
    rw [List.getElem?_map] at hget
    rcases Option.map_eq_some_iff.mp hget with ⟨l, hl, rfl⟩
    have hmem : l ∈ (logs name).take (d.place name) := by
      apply List.mem_of_getElem? (i := i)
      rw [List.getElem?_take, if_pos hi, hl]
    cases hsince : sinceSecond pods s with
    | none =>
        rw [hsince] at hplace
        change d.place name = 0 at hplace
        rw [hplace] at hi
        exact absurd hi (Nat.not_lt_zero i)
    | some t' =>
        rw [hsince] at hplace
        rcases sinceSecond_le hsince hname with ⟨last, smallest, hlast, hle, heq⟩
        rw [ht, Option.some_inj] at hlast
        have hlt := hplace l hmem
        rw [heq] at hlt
        rw [hlast]
        exact lt_of_lt_of_le (second_lt hlt) hle

/-- The state between polls does not depend on when the connection was lost. -/
theorem Printed.of_lostSince {n : String -> Nat} {s : State} (h : Printed pods logs n s)
    (t : Option Nat) : Printed pods logs n { s with lostSince := t } :=
  ⟨h.marks, h.printed, h.finished, h.within⟩

/-- The state between polls: what was printed, and since when the connection is lost. -/
structure Between (pods : List String) (logs : String -> List LogLine) (events : List Event)
    (s : State) : Prop where
  goesOn : GoesOn pods logs events
  printed : Printed pods logs (reach logs events) s
  lostSince : s.lostSince = Try.lostSince (events.map Event.try)

theorem Between.start (pods : List String) (logs : String -> List LogLine) :
    Between pods logs [] State.start := by
  refine ⟨?_, Printed.start pods logs, rfl⟩
  intro q hq
  rw [List.prefix_nil.mp hq]
  constructor
  · intro h
    rcases h with ⟨⟨e, _, _, he, _⟩, _⟩
    cases he
  · intro h
    rcases h with ⟨e, he, _⟩ | ⟨_, t, _, _, ht, _⟩
    · cases he
    · cases ht

theorem GoesOn.snoc {events : List Event} {e : Event} (h : GoesOn pods logs events)
    (hcompletes : ¬ Completes pods logs (events ++ [e])) (hgives : ¬ GivesUp (events ++ [e])) :
    GoesOn pods logs (events ++ [e]) := by
  intro q hq
  rcases List.prefix_concat_iff.mp hq with heq | hbefore
  · rw [heq]
    exact ⟨hcompletes, hgives⟩
  · exact h q hbefore

theorem givesUp_snoc {events : List Event} {e : Event} :
    GivesUp (events ++ [e]) <-> (e.status = .failed ∨ exists dead missing,
      e.status = .pods dead missing ∧ ((dead || missing) = true ∨ e.answer = .failed)) ∨
      exists clock, e.lost = some clock ∧ LogStream.lostForGood ≤ clock.2 -
        (Try.lostSince (events.map Event.try)).getD clock.1 := by
  unfold GivesUp
  rw [List.map_append, List.map_singleton, Try.lostFor_snoc, List.getLast?_concat]
  simp only [Option.some_inj, exists_eq_left']
  rfl

/-- What one more poll makes of a run. -/
def Polled (pods : List String) (logs : String -> List LogLine) (events : List Event)
    (e : Event) : Outcome -> Prop
  | .running s => Between pods logs (events ++ [e]) s
  | .returned s => Completes pods logs (events ++ [e]) ∧
      Printed pods logs (reach logs (events ++ [e])) s
  | .raised s => ¬ Completes pods logs (events ++ [e]) ∧ GivesUp (events ++ [e]) ∧
      Printed pods logs (reach logs (events ++ [e])) s

/-- One more poll that lost the connection either goes on or gives the run up. -/
theorem Between.lost {events : List Event} {e : Event} {s s' : State}
    (h : Between pods logs events s)
    (hprinted : Printed pods logs (reach logs (events ++ [e])) s')
    (hsince : s'.lostSince = s.lostSince)
    (hcompletes : ¬ Completes pods logs (events ++ [e])) {first now : Nat}
    (hlost : e.lost = some (first, now))
    (hends : ¬ (e.status = .failed ∨ exists dead missing, e.status = .pods dead missing ∧
      ((dead || missing) = true ∨ e.answer = .failed))) :
    Polled pods logs events e (PollRanks.lost s' first now) := by
  rw [h.lostSince] at hsince
  unfold PollRanks.lost
  by_cases hlong : LogStream.lostForGood ≤ now - s'.lostSince.getD first
  · rw [if_pos hlong]
    refine ⟨hcompletes, givesUp_snoc.mpr (Or.inr ⟨_, hlost, ?_⟩), hprinted⟩
    rw [← hsince]
    exact hlong
  · rw [if_neg hlong]
    refine ⟨h.goesOn.snoc hcompletes ?_, hprinted.of_lostSince _, ?_⟩
    · rw [givesUp_snoc, ← hsince]
      intro hgives
      rcases hgives with hend | ⟨clock, hclock, hlimit⟩
      · exact hends hend
      · rw [hlost, Option.some_inj] at hclock
        rw [← hclock] at hlimit
        exact hlong hlimit
    · rw [List.map_append, List.map_singleton, Try.lostSince_snoc, Try.next]
      show some (s'.lostSince.getD first) = e.lost.map fun clock =>
        (Try.lostSince (events.map Event.try)).getD clock.1
      rw [hlost, ← hsince]
      rfl

theorem readLines_lostSince (s : State) (lines : List String) :
    (readLines pods s lines).lostSince = s.lostSince := by
  have hline : forall (s : State × (String -> Nat)) raw,
      (pollLine pods s raw).1.lostSince = s.1.lostSince := by
    intro s raw
    unfold pollLine
    dsimp only
    split_ifs
    · split
      · exact Eq.refl s.1.lostSince
      · exact State.print_lostSince pods s.1 _ _ _
    · exact Eq.refl s.1.lostSince
  have hfold : forall (lines : List String) (s : State × (String -> Nat)),
      (lines.foldl (pollLine pods) s).1.lostSince = s.1.lostSince := by
    intro lines
    induction lines with
    | nil =>
        intro s
        rfl
    | cons raw rest ih =>
        intro s
        rw [List.foldl_cons, ih, hline]
  exact hfold lines _

include hset

theorem readLines_printed {n : String -> Nat} {s : State} (h : Printed pods logs n s)
    {d : Delivery} (hd : Delivers pods logs (sinceSecond pods s) d) :
    Printed pods logs ((Answer.lines d).reach logs n)
      (readLines pods s (Text.splitlines (stdout container d.lines))) := by
  have hlines : forall entry, entry ∈ d.lines -> entry.1 ∈ pods ∧ entry.2 ∈ logs entry.1 := by
    intro entry hentry
    have hname := hd.names entry hentry
    have hmem : entry.2 ∈ linesOf entry.1 d.lines := by
      unfold linesOf
      exact List.mem_map_of_mem (List.mem_filter.mpr ⟨hentry, by simp⟩)
    rw [hd.lines entry.1 hname] at hmem
    exact ⟨hname, List.mem_of_mem_drop (List.mem_of_mem_take hmem)⟩
  have hreads : forall name, name ∈ pods -> exists p,
      PodReads pods (logs name) name p ((Answer.lines d).reach logs n name)
        (((d.lines.map (tagged container)).foldl (pollLine pods)
          (s, fun name => (s.seen name).atLast)).2 name)
        (readLines pods s (Text.splitlines (stdout container d.lines))) := by
    intro name hname
    have hpre : linesOf name d.lines <+: (logs name).drop (d.place name) := by
      rw [hd.lines name hname]
      exact List.take_prefix _ _
    have hfold := PodReads.foldl hset hname hlines (fun name => (s.seen name).atLast)
      (h.podReads hd hname) hpre
    rw [hd.lines name hname, List.length_take, List.length_drop] at hfold
    unfold readLines
    rw [splitlines_stdout hset hlines]
    exact ⟨_, hfold⟩
  constructor
  · intro name hname
    rcases hreads name hname with ⟨p, hpod⟩
    exact hpod.pass.marks
  · intro name hname
    rcases hreads name hname with ⟨p, hpod⟩
    exact hpod.printed
  · intro name hname
    rcases hreads name hname with ⟨p, hpod⟩
    exact hpod.finished
  · exact readLines_within h.within _

/-- The finished pods are as many as there are exactly when every marker was yielded. -/
theorem completes_iff {events : List Event} {e : Event} {s : State}
    (h : Printed pods logs (reach logs (events ++ [e])) s) {dead missing : Bool}
    (hstatus : e.status = .pods dead missing) :
    s.finished.card = pods.length <-> Completes pods logs (events ++ [e]) := by
  have hall : s.finished.card = pods.length <-> pods.toFinset ⊆ s.finished := by
    rw [← List.toFinset_card_of_nodup hset.nodup]
    constructor
    · intro hcard
      rw [Finset.eq_of_subset_of_card_le h.within (Nat.le_of_eq hcard.symm)]
    · intro hsub
      rw [Finset.Subset.antisymm h.within hsub]
  have hlast : exists e' dead missing, (events ++ [e]).getLast? = some e' ∧
      e'.status = .pods dead missing :=
    ⟨e, dead, missing, List.getLast?_concat, hstatus⟩
  rw [hall]
  constructor
  · intro hsub
    refine ⟨hlast, fun name hname => ?_⟩
    rw [← h.finished name hname]
    exact hsub (List.mem_toFinset.mpr hname)
  · intro hcompletes name hname
    rw [List.mem_toFinset] at hname
    rw [h.finished name hname]
    exact hcompletes.2 name hname

/-- One more poll goes on, completes the logs, or gives the run up. -/
theorem poll_polled {events : List Event} {s : State} (h : Between pods logs events s) {e : Event}
    (he : forall d, e.answer = .lines d -> Delivers pods logs (sinceSecond pods s) d) :
    Polled pods logs events e (poll pods s (e.poll container)) := by
  have hunread : (forall dead missing, e.status ≠ .pods dead missing) ->
      ¬ Completes pods logs (events ++ [e]) := by
    intro hstatus hcompletes
    rcases hcompletes.1 with ⟨e', dead, missing, hlast, he'⟩
    rw [List.getLast?_concat, Option.some_inj] at hlast
    exact hstatus dead missing (hlast ▸ he')
  rcases e with ⟨status, answer⟩
  cases status with
  | lost first now =>
      have hsame : Printed pods logs (reach logs (events ++ [⟨.lost first now, answer⟩])) s := by
        rw [reach_snoc]
        exact h.printed
      apply h.lost hsame rfl (hunread fun _ _ hstatus => by cases hstatus) rfl
      intro hends
      rcases hends with hfailed | ⟨_, _, hpods, _⟩
      · cases hfailed
      · cases hpods
  | failed =>
      have hsame : Printed pods logs (reach logs (events ++ [⟨.failed, answer⟩])) s := by
        rw [reach_snoc]
        exact h.printed
      exact ⟨hunread (fun _ _ hstatus => by cases hstatus),
        givesUp_snoc.mpr (Or.inl (Or.inl rfl)), hsame⟩
  | pods dead missing =>
      have hread : Printed pods logs (reach logs (events ++ [⟨.pods dead missing, answer⟩]))
          (readLines pods s (answer.logs container).lines) := by
        rw [reach_snoc]
        cases answer with
        | lines d => exact readLines_printed hset h.printed (he d rfl)
        | lost first now => exact h.printed
        | failed => exact h.printed
      have hcompletes := completes_iff hset hread rfl
      show Polled pods logs events _ (poll pods s ⟨.pods dead missing, answer.logs container⟩)
      unfold poll
      dsimp only
      split_ifs with hcard hdead
      · exact ⟨hcompletes.mp hcard, hread⟩
      · exact ⟨fun hall => hcard (hcompletes.mpr hall),
          givesUp_snoc.mpr (Or.inl (Or.inr ⟨dead, missing, rfl, Or.inl hdead⟩)), hread⟩
      · have hopen := fun hall => hcard (hcompletes.mpr hall)
        rw [Bool.not_eq_true, Bool.or_eq_false_iff] at hdead
        cases answer with
        | lines d =>
            refine ⟨h.goesOn.snoc hopen ?_, hread.of_lostSince none, ?_⟩
            · rw [givesUp_snoc]
              simp [Event.lost, hdead]
            · rw [List.map_append, List.map_singleton, Try.lostSince_snoc]
              rfl
        | lost first now =>
            apply h.lost hread (readLines_lostSince s _) hopen rfl
            simp [hdead]
        | failed =>
            exact ⟨hopen, givesUp_snoc.mpr (Or.inl (Or.inr ⟨dead, missing, rfl, Or.inr rfl⟩)),
              hread⟩

/-- Whatever is lost, every line of a pod is printed once and in order. -/
theorem run_exactlyOnce {before events : List Event} {s : State}
    (h : Between pods logs before s) (hevents : Honest pods container logs s events) :
    ExactlyOnce pods logs (before ++ events)
      (run pods s (events.map (Event.poll container))) := by
  induction events generalizing before s with
  | nil =>
      rw [List.append_nil]
      exact ⟨h.goesOn, h.printed⟩
  | cons e rest ih =>
      have hone := poll_polled hset h hevents.1
      have hsplit : before ++ e :: rest = before ++ [e] ++ rest := by
        rw [List.append_assoc]
        rfl
      have hpre : before ++ [e] <+: before ++ e :: rest := ⟨rest, hsplit.symm⟩
      rw [List.map_cons, run]
      cases hpoll : poll pods s (e.poll container) with
      | running s' =>
          rw [hpoll] at hone
          rw [hsplit]
          exact ih hone (hevents.2 s' hpoll)
      | returned s' =>
          rw [hpoll] at hone
          exact ⟨before, e, hpre, h.goesOn, hone⟩
      | raised s' =>
          rw [hpoll] at hone
          exact ⟨before, e, hpre, h.goesOn, hone⟩

end Run

/--
Each line is printed exactly once and in order across lost connections, by the
stream of one pod and for each rank by the polls of several.
-/
theorem logs_exactlyOnce :
    (forall log, LogStream.WellFormed log ->
      (forall l, l ∈ log -> forall c, c ∈ l.text.toList -> Text.isBoundary c = false) ->
      forall resumes, LogStream.Honest log LogStream.State.start resumes ->
        LogStream.ExactlyOnce log resumes
          (LogStream.run LogStream.State.start (resumes.map (LogStream.Resume.attempt log)))) ∧
    (forall pods container logs, Setting pods container logs ->
      forall events, Honest pods container logs State.start events ->
        ExactlyOnce pods logs events
          (run pods State.start (events.map (Event.poll container)))) := by
  constructor
  · intro log hlog hbreak resumes hresumes
    exact LogStream.run_exactlyOnce hlog hbreak (LogStream.Between.start log) hresumes
  · intro pods container logs hset events hevents
    exact run_exactlyOnce hset (Between.start pods logs) hevents

open LogStream (repeatedLog)

/-- The connection is lost between two lines of one timestamp, and the log is read again. -/
def repeatedResumes : List LogStream.Resume := [⟨0, 1, .lostLogs 10 10⟩, ⟨0, 3, .alive⟩]

def ranks : List String := ["run-0", "run-1"]

/-- The first poll yields one line of one rank, the next one all lines of both. -/
def repeatedPolls : List Event :=
  let first : Delivery :=
    ⟨(repeatedLog.take 1).map (fun l => ("run-0", l)), fun _ => 0,
      fun name => if name = "run-0" then 1 else 0⟩
  let all : Delivery := ⟨repeatedLog.flatMap (fun l => [("run-1", l), ("run-0", l)]),
    fun _ => 0, fun _ => 3⟩
  [⟨.pods false false, .lines first⟩, ⟨.lost 10 10, .failed⟩, ⟨.pods false false, .lines all⟩]

theorem logs_exactlyOnce_repeatedLog :
    LogStream.ExactlyOnce repeatedLog repeatedResumes
      (LogStream.run LogStream.State.start
        (repeatedResumes.map (LogStream.Resume.attempt repeatedLog))) ∧
    ExactlyOnce ranks (fun _ => repeatedLog) repeatedPolls
      (run ranks State.start (repeatedPolls.map (Event.poll "main"))) := by
  have hlog := LogStream.repeatedLog_wellFormed
  have hbreak : forall l, l ∈ repeatedLog -> forall c, c ∈ l.text.toList ->
      Text.isBoundary c = false := by decide
  have hset : Setting ranks "main" (fun _ => repeatedLog) := by
    constructor
    · decide
    · unfold Plain
      decide
    · unfold Plain
      decide
    · exact fun _ _ => hlog
    · exact fun _ _ => hbreak
  have hresumes : LogStream.Honest repeatedLog LogStream.State.start repeatedResumes := by
    have hplace : forall since, LogStream.StartsBefore repeatedLog since 0 := by
      intro since
      cases since with
      | none => rfl
      | some t =>
          intro l hl
          cases hl
    exact ⟨hplace _, fun _ _ => ⟨hplace _, fun _ _ => trivial⟩⟩
  have hdelivers : forall (d : Delivery) since,
      (forall entry, entry ∈ d.lines -> entry.1 ∈ ranks) ->
      (forall name, name ∈ ranks -> linesOf name d.lines = repeatedLog.take (d.count name)) ->
      d.place = (fun _ => 0) -> Delivers ranks (fun _ => repeatedLog) since d := by
    intro d since hnames hlines hplace
    constructor
    · exact hnames
    · rw [hplace]
      exact hlines
    · intro name _
      rw [hplace]
      cases since with
      | none => rfl
      | some t =>
          intro l hl
          cases hl
  have hpolls : Honest ranks "main" (fun _ => repeatedLog) State.start repeatedPolls := by
    refine ⟨?_, fun _ _ => ⟨?_, fun _ _ => ⟨?_, fun _ _ => trivial⟩⟩⟩
    · intro d hd
      injection hd with hd
      subst hd
      exact hdelivers _ _ (by decide) (by decide) rfl
    · intro d hd
      cases hd
    · intro d hd
      injection hd with hd
      subst hd
      exact hdelivers _ _ (by decide) (by decide) rfl
  -- The runs stay folded: the theorem says what they print.
  generalize repeatedResumes = resumes at hresumes ⊢
  generalize repeatedPolls = polls at hpolls ⊢
  exact ⟨logs_exactlyOnce.1 repeatedLog hlog hbreak resumes hresumes,
    logs_exactlyOnce.2 ranks "main" (fun _ => repeatedLog) hset polls hpolls⟩

end PollRanks
end Dev
end Ostia

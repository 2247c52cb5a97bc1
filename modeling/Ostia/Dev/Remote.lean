import Ostia.Dev.Guards
import Ostia.Foundation.Effect

/-!
# A remote run

A run creates a Job, uploads the code, follows the log, collects and judges the results,
and tears the Job down however it ends.  Every call can raise an exception, and a signal
can arrive between any two steps.  SIGINT raises an interrupt unless it is ignored, and
SIGTERM always does.

The answers of the cluster, of the file system and of the clock are a parameter.
-/

namespace Ostia
namespace Dev

open Foundation

namespace Remote

/-- The exceptions of a run, by their classes.  A lost connection is an infrastructure
error too. -/
inductive Raised where
  | keyboardInterrupt
  | lostConnection
  | infraError
  | usageError
  | other (name : String)
deriving DecidableEq, Repr

inductive Signal where
  | sigint
  | sigterm
deriving DecidableEq, Repr

/-- The calls of a run, and the places between two steps where only a signal can strike. -/
inductive Call where
  | gc
  | getCache
  | applyCache
  | makeJob
  | markCreated
  | applyJob
  | readUid
  | createSecret
  | createService
  | listPolicies
  | createPolicy
  | patchJob
  | waitRunning
  | upload
  | stream
  | collect
  | extractControl
  | extractArtifacts
  | readJunits
  | evaluate
  | merge
  | report
  | enterTeardown
  | keptStatus
  | keptSleep
  | enterDelete
  | delete
  | leaveDelete
  | status
  | sleep
  | finish
deriving DecidableEq, Repr

/-- What became of a delete request: kubectl ran to its end, or to an error that it reported,
or the call raised something else. -/
inductive Deletion where
  | completed
  | refused (lost usage : Bool)
  | raised (e : Raised)

/-- What a run is asked to do. -/
structure Spec where
  cache : Bool
  secret : Bool
  pods : Nat
  keep : Nat

/-- The answers that a run gets, each at the number of the step that asks. -/
structure Env (F : Type) where
  /-- A signal that arrives just before a call. -/
  signal : Call -> Nat -> Option Signal
  /-- What a call raises, if it does. -/
  raises : Call -> Nat -> Option Raised
  cachePresent : Nat -> Bool
  policies : Nat -> Bool
  /-- The ranks that were collected. -/
  ranks : Nat -> Nat
  /-- One of the collected steps had failed. -/
  failed : Nat -> Bool
  verdict : Nat -> Guards.Verdict F
  /-- The benchmark files that each rank wrote, by their paths. -/
  benchFiles : Nat -> List (List (String × List UInt8))
  keptRunning : Nat -> Bool
  /-- How often the clock is found before the end of the window. -/
  keptTicks : Nat
  deletion : Nat -> Deletion
  statusEmpty : Nat -> Bool
  teardownTicks : Nat
  python : Guards.Python F

/-- What happened in a run, as far as its end is judged by it. -/
inductive Event where
  | called (c : Call)
  | interrupt
  | teardown
  | deleteEnded
  | statusEmpty
deriving DecidableEq, Repr

/-- The state of a run: its flags and variables, and what has happened. -/
structure World (F : Type) where
  clock : Nat := 0
  sigintIgnored : Bool := false
  created : Bool := false
  kept : Bool := false
  waitInterrupted : Bool := false
  interrupted : Bool := false
  usage : Bool := false
  infra : Bool := false
  ranks : List (String × Guards.Verdict F) := []
  verdict : Option (Guards.Verdict F) := none
  merged : Option (List (List (String × List UInt8))) := none
  verified : Bool := false
  log : List Event := []

variable {F : Type}

abbrev Step (F : Type) (A : Type) := Effect (World F) Raised A

/-!
## Calls
-/

def World.tick (w : World F) (events : List Event) : World F :=
  { w with clock := w.clock + 1, log := w.log ++ events }

/-- A signal that raises an interrupt strikes before a call. -/
def struck (env : Env F) (c : Call) (w : World F) : Bool :=
  match env.signal c w.clock with
  | none => false
  | some .sigterm => true
  | some .sigint => !w.sigintIgnored

/-- A place where a signal can strike. -/
def point (env : Env F) (c : Call) : Step F Unit := fun w =>
  if struck env c w then ⟨.error .keyboardInterrupt, w.tick [.interrupt], []⟩
  else ⟨.ok (), w.tick [], []⟩

/-- The number of the step, for the answers. -/
def now : Step F Nat := fun w => ⟨.ok w.clock, w, []⟩

/-- The trace of an exception: an interrupt is one event more. -/
def trace (e : Raised) : List Event := if e = .keyboardInterrupt then [.interrupt] else []

/-- A call, which returns or raises. -/
def call (env : Env F) (c : Call) : Step F Unit := fun w =>
  match env.raises c w.clock with
  | none => ⟨.ok (), w.tick [.called c], []⟩
  | some e => ⟨.error e, w.tick (.called c :: trace e), []⟩

def perform (env : Env F) (c : Call) : Step F Unit := do
  point env c
  call env c

def set (f : World F -> World F) : Step F Unit := fun w => ⟨.ok (), f w, []⟩

def read {A : Type} (f : World F -> A) : Step F A := fun w => ⟨.ok (f w), w, []⟩

def when (c : Bool) (m : Step F Unit) : Step F Unit := if c then m else pure ()

/-!
## Rules for the steps
-/

/-- No statement is about the states between. -/
def anywhere (_ : World F) : Prop := True

section Rules

variable {env : Env F} {c : Call} {P Q : World F -> Prop} {R : Raised -> World F -> Prop}

theorem holds_point (hok : forall w, P w -> struck env c w = false -> Q (w.tick []))
    (hstruck : forall w, P w -> struck env c w = true ->
      R .keyboardInterrupt (w.tick [.interrupt])) :
    (point env c).Holds P anywhere (fun _ => Q) R := by
  intro w hw
  unfold point
  by_cases h : struck env c w = true
  · rw [if_pos h]
    exact ⟨fun _ _ => True.intro, hstruck w hw h⟩
  · rw [if_neg h]
    exact ⟨fun _ _ => True.intro, hok w hw (by simpa using h)⟩

theorem holds_call (hok : forall w, P w -> Q (w.tick [.called c]))
    (hraised : forall w e, P w -> env.raises c w.clock = some e ->
      R e (w.tick (.called c :: trace e))) :
    (call env c).Holds P anywhere (fun _ => Q) R := by
  intro w hw
  unfold call
  cases h : env.raises c w.clock with
  | none => exact ⟨fun _ _ => True.intro, hok w hw⟩
  | some e => exact ⟨fun _ _ => True.intro, hraised w e hw h⟩

theorem holds_set {f : World F -> World F} (h : forall w, P w -> Q (f w)) :
    (set f).Holds P anywhere (fun _ => Q) R := by
  intro w hw
  exact ⟨fun _ _ => True.intro, h w hw⟩

theorem holds_now_bind {A : Type} {f : Nat -> Step F A} {Q : A -> World F -> Prop}
    (h : forall n, (f n).Holds P anywhere Q R) : Effect.Holds (now >>= f) P anywhere Q R :=
  fun w hw => h w.clock w hw

theorem holds_read_bind {A B : Type} {g : World F -> B} {f : B -> Step F A}
    {Q : A -> World F -> Prop}
    (h : forall b, (f b).Holds (fun w => P w ∧ g w = b) anywhere Q R) :
    Effect.Holds (read g >>= f) P anywhere Q R :=
  fun w hw => h (g w) w ⟨hw, rfl⟩

theorem holds_when {b : Bool} {m : Step F Unit} (h : m.Holds P anywhere (fun _ => P) R) :
    (when b m).Holds P anywhere (fun _ => P) R := by
  cases b with
  | true => exact h
  | false => exact Effect.holds_pure fun _ hw => hw

end Rules

/-- A property that no call takes away. -/
def Stable (P : World F -> Prop) : Prop :=
  forall w, P w -> P (w.tick []) ∧ forall c, P (w.tick [.called c])

/-- A call from a property that is stable: what it raises is an interrupt or leaves it. -/
theorem holds_perform {env : Env F} {c : Call} {P : World F -> Prop}
    {R : Raised -> World F -> Prop} (hP : Stable P)
    (hinterrupt : forall w, P w -> R .keyboardInterrupt (w.tick [.interrupt]) ∧
      R .keyboardInterrupt (w.tick [.called c, .interrupt]))
    (hraised : forall w e, P w -> e ≠ .keyboardInterrupt -> R e w) :
    (perform env c).Holds P anywhere (fun _ => P) R := by
  refine Effect.Holds.bind (Q := fun _ => P) ?_ ?_
  · exact holds_point (fun w hw _ => (hP w hw).1) (fun w hw _ => (hinterrupt w hw).1)
  · intro _
    refine holds_call (fun w hw => (hP w hw).2 c) ?_
    intro w e hw _
    by_cases he : e = .keyboardInterrupt
    · subst he
      exact (hinterrupt w hw).2
    · rw [trace, if_neg he]
      exact hraised _ e ((hP w hw).2 c) he

/-!
## Start, upload, stream and collect
-/

/-- The volume for the cache of a namespace, made once. -/
def ensureCache (spec : Spec) (env : Env F) : Step F Unit :=
  when spec.cache (do
    perform env .getCache
    let n ← now
    when (!env.cachePresent n) (perform env .applyCache))

/-- The objects that the Job owns, before any pod runs. -/
def createOwned (spec : Spec) (env : Env F) : Step F Unit := do
  when spec.secret (perform env .createSecret)
  when (decide (1 < spec.pods)) (do
    perform env .createService
    perform env .listPolicies
    let n ← now
    when (env.policies n) (perform env .createPolicy))

def start (spec : Spec) (env : Env F) : Step F Unit := do
  ensureCache spec env
  perform env .makeJob
  point env .markCreated
  -- Before the call: the server may create it and the reply be lost.
  set fun w => { w with created := true }
  perform env .applyJob
  perform env .readUid
  createOwned spec env
  perform env .patchJob
  perform env .waitRunning

/-- Collect marks a failed run kept when there is a window; it can still raise after that. -/
def collect (spec : Spec) (env : Env F) : Step F Nat := do
  point env .collect
  let n ← now
  when (decide (0 < spec.keep) && env.failed n) (set fun w => { w with kept := true })
  call env .collect
  pure (env.ranks n)

/-- The directory of a rank: none for a run with one pod. -/
def subdir (spec : Spec) (i : Nat) : String :=
  if 1 < spec.pods then "rank-" ++ toString i else ""

/-- Extract and judge what was collected from one rank. -/
def judgeRank (spec : Spec) (env : Env F) (i : Nat) : Step F Unit := do
  perform env .extractControl
  perform env .extractArtifacts
  perform env .readJunits
  point env .evaluate
  let n ← now
  call env .evaluate
  set fun w => { w with ranks := w.ranks ++ [(subdir spec i, env.verdict n)] }

/-- Add a file of a rank: the same path with other bytes is a conflict. -/
def addFile (found : List (String × List UInt8)) (f : String × List UInt8) :
    Except Raised (List (String × List UInt8)) :=
  match found.lookup f.1 with
  | some data => if data = f.2 then .ok (f :: found) else .error .infraError
  | none => .ok (f :: found)

/-- Only one rank of a run writes benchmark records, so two files are a bug, not a merge. -/
def mergeBenchResults (files : List (List (String × List UInt8))) :
    Except Raised (List (String × List UInt8)) :=
  files.flatten.foldlM addFile []

/-- Merge the benchmark results; the copies can fail too. -/
def merge (env : Env F) : Step F Unit := do
  point env .merge
  let n ← now
  let _ ← Effect.ofExcept (mergeBenchResults (env.benchFiles n))
  call env .merge
  set fun w => { w with merged := some (env.benchFiles n) }

/-- The body of the run: everything before the teardown. -/
def work [JsonText.FloatText F] (spec : Spec) (env : Env F) : Step F Unit := do
  start spec env
  perform env .upload
  perform env .stream
  let n ← collect spec env
  Effect.each (judgeRank spec env) (List.range n)
  set fun w =>
    let v := Guards.combine env.python w.ranks
    { w with verdict := some v, infra := v.infra }
  merge env

/-- What the exception of the body sets; the report itself can raise. -/
def onRaised (env : Env F) : Raised -> Step F Unit
  | .keyboardInterrupt => do
      set fun w => { w with interrupted := true }
      perform env .report
  | .lostConnection => set fun w => { w with infra := true }
  | .infraError => set fun w => { w with infra := true }
  | .usageError => set fun w => { w with usage := true }
  | .other _ => do
      perform env .report
      set fun w => { w with infra := true }

/-!
## Teardown
-/

/-- Wait while the pods of a kept run are there; a lost connection only costs a poll. -/
def keptLoop (env : Env F) : Nat -> Step F Unit
  | 0 => pure ()
  | ticks + 1 => do
      let lost ← (do
        perform env .keptStatus
        pure false : Step F Bool).handle fun e =>
          match e with
          | .lostConnection => pure true
          | e => Effect.throw e
      let n ← now
      if lost || env.keptRunning n then
        perform env .keptSleep
        keptLoop env ticks
      else pure ()

def waitKept (env : Env F) : Step F Unit :=
  (keptLoop env env.keptTicks).handle fun e =>
    match e with
    | .keyboardInterrupt => set fun w => { w with waitInterrupted := true }
    | e => Effect.throw e

/-- The error that kubectl reported. -/
def refusal (lost usage : Bool) : Raised :=
  if lost then .lostConnection else if usage then .usageError else .infraError

/-- The request itself, once SIGINT is ignored. -/
def kubectlDelete (env : Env F) : Step F Unit := fun w =>
  match env.deletion w.clock with
  | .completed => ⟨.ok (), w.tick [.called .delete, .deleteEnded], []⟩
  | .refused lost usage =>
      ⟨.error (refusal lost usage), w.tick [.called .delete, .deleteEnded], []⟩
  | .raised e => ⟨.error e, w.tick (.called .delete :: trace e), []⟩

def request (env : Env F) : Step F Unit := do
  point env .delete
  kubectlDelete env

/-- A second interrupt skips the wait, not the delete. -/
def delete (env : Env F) : Step F Unit := do
  point env .enterDelete
  set fun w => { w with sigintIgnored := true }
  (request env).ensure fun w => { w with sigintIgnored := false }

/-- One look at what is left of the run. -/
def observe (env : Env F) : Step F Bool := do
  perform env .status
  let n ← now
  when (env.statusEmpty n) (set fun w => w.tick [.statusEmpty])
  pure (env.statusEmpty n)

/-- Wait until nothing of the run is left, or the deadline. -/
def statusLoop (env : Env F) : Nat -> Step F Bool
  | 0 => observe env
  | ticks + 1 => do
      if ← observe env then pure true
      else
        perform env .sleep
        statusLoop env ticks

def teardown (env : Env F) : Step F Bool := do
  set fun w => w.tick [.teardown]
  point env .enterTeardown
  let created ← read World.created
  if !created then pure true
  else
    (do
      let kept ← read World.kept
      when kept (waitKept env)
      delete env
      point env .leaveDelete
      statusLoop env env.teardownTicks : Step F Bool).handle fun e =>
        match e with
        | .lostConnection | .infraError | .usageError => pure false
        | e => Effect.throw e

/-- The finally block of the run. -/
def tearDown (env : Env F) : Step F Unit := do
  (do
    let verified ← teardown env
    set fun w => { w with verified := verified } : Step F Unit).handle fun e =>
      match e with
      | .keyboardInterrupt => set fun w => { w with interrupted := true, verified := false }
      | e => Effect.throw e
  set fun w => { w with interrupted := w.interrupted || w.waitInterrupted }

/-!
## The exit code
-/

/-- Ctrl-C, then usage, then infrastructure, then the test result, then teardown. -/
def finalExit (testCode : Nat) (infra verified interrupted usage : Bool) : Nat :=
  if interrupted then 130
  else if usage then 2
  else if infra then 3
  else if testCode ≠ 0 then 1
  else if verified then 0
  else 4

def exitCode (w : World F) : Nat :=
  finalExit ((w.verdict.map Guards.Verdict.testCode).getD 0) w.infra w.verified w.interrupted
    w.usage

def pipeline [JsonText.FloatText F] (spec : Spec) (env : Env F) : Step F Nat := do
  perform env .gc
  ((work spec env).handle (onRaised env)).finallyDo (tearDown env)
  let code ← read exitCode
  perform env .finish
  pure code

end Remote
end Dev
end Ostia

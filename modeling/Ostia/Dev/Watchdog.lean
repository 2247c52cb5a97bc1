import Ostia.Foundation.Transition

/-!
# The watchdog of a pod

The supervisor of a pod runs the steps of a plan one after another, each in a process group of
its own.  A second process, the watchdog, ends the pipeline when its time is over.  The two
share only files: the flag of the timeout, the flag that stops the watchdog, and the file with
the process group of the step that runs.

Their steps interleave in any order.  The times, the exit codes and how the processes of a
step end are open.
-/

namespace Ostia
namespace Dev

open Foundation

namespace Watchdog

/-- A line of the plan. -/
structure Line where
  name : String
  kind : String
  cmd : String
deriving DecidableEq

def known (kind : String) : Bool :=
  ["preflight", "install", "build", "command", "report"].contains kind

/-- The processes of a step: the subshell has not changed its directory yet, the group has
started, its file was created, its number was written, the command has ended. -/
inductive Child where
  | entering
  | spawned
  | created
  | running
  | over
deriving DecidableEq, Repr

/-- What the main loop does next. -/
inductive Main where
  | reading (k : Nat)
  | removing (k : Nat)
  | starting (k : Nat)
  | waiting (k : Nat) (child : Child)
  | checking (k : Nat)
  | leaving
  | stopped
deriving DecidableEq, Repr

/-- What the watchdog does next. -/
inductive Guard where
  | sleeping
  | flagging
  | terminating
  | probing (i : Nat)
  | probed (i : Nat) (group : Nat)
  | killing (i : Nat)
  | sending (i : Nat) (group : Nat)
  | checkingGroup (i : Nat)
  | checkedGroup (i : Nat) (group : Nat)
  | ended
deriving DecidableEq, Repr

inductive Event where
  | started (k : Nat)
  | ended (k : Nat)
  | killed (k : Nat)
  | timedOut
deriving DecidableEq, Repr

structure State where
  main : Main := .reading 0
  watchdog : Guard := .sleeping
  /-- The file with the group, which is empty for a moment. -/
  pgid : Option (Option Nat) := none
  timedOut : Bool := false
  stopWatchdog : Bool := false
  log : List Event := []
deriving DecidableEq, Repr

inductive Act where
  | readLine
  | remove
  | start
  | cdFails
  | spawn
  | createPgid
  | writePgid
  | finish
  | waitReturns
  | check (rc : Nat)
  | leave
  | poll
  | deadline
  | flag
  | terminate
  | readPgid
  | kill
  | answer (alive : Bool)
deriving DecidableEq, Repr

/-!
## The main loop
-/

/-- The next line of the plan: an empty name is skipped, an unknown kind ends the loop. -/
def readLine (plan : List Line) (k : Nat) : Main :=
  match plan[k]? with
  | none => .leaving
  | some l =>
      if l.name = "" then .reading (k + 1) else if known l.kind then .removing k else .leaving

/-- What follows a step that has ended: the flag is looked at first. -/
def checked (plan : List Line) (timedOut : Bool) (k rc : Nat) : Main :=
  if timedOut then .leaving
  else if rc = 0 ∨ (plan[k]?.map Line.kind) = some "report" then .reading (k + 1)
  else .leaving

def mainStep (plan : List Line) (s : State) : Act -> Option State
  | .readLine => match s.main with
    | .reading k => some { s with main := readLine plan k }
    | _ => none
  | .remove => match s.main with
    | .removing k => some { s with main := .starting k, pgid := none }
    | _ => none
  | .start => match s.main with
    | .starting k => some { s with main := .waiting k .entering, log := s.log ++ [.started k] }
    | _ => none
  | .cdFails => match s.main with
    | .waiting k .entering => some { s with main := .waiting k .over, log := s.log ++ [.ended k] }
    | _ => none
  | .spawn => match s.main with
    | .waiting k .entering => some { s with main := .waiting k .spawned }
    | _ => none
  | .createPgid => match s.main with
    | .waiting k .spawned => some { s with main := .waiting k .created, pgid := some none }
    | _ => none
  | .writePgid => match s.main with
    | .waiting k .created => some { s with main := .waiting k .running, pgid := some (some k) }
    | _ => none
  | .finish => match s.main with
    | .waiting k .running => some { s with main := .waiting k .over, log := s.log ++ [.ended k] }
    | _ => none
  | .waitReturns => match s.main with
    | .waiting k .over => some { s with main := .checking k }
    | _ => none
  | .check rc => match s.main with
    | .checking k => some { s with main := checked plan s.timedOut k rc }
    | _ => none
  | .leave => match s.main with
    | .leaving => some { s with main := .stopped, stopWatchdog := true }
    | _ => none
  | _ => none

/-!
## The watchdog
-/

/-- The processes of a group live. -/
def State.alive (s : State) (group : Nat) : Bool :=
  match s.main with
  | .waiting k .spawned => k == group
  | .waiting k .created => k == group
  | .waiting k .running => k == group
  | _ => false

/-- KILL for a group. -/
def State.kill (s : State) (group : Nat) : State :=
  if s.alive group then
    { s with main := .waiting group .over, log := s.log ++ [.killed group] }
  else s

/-- The group that is read from the file, if the file has one. -/
def State.group (s : State) : Option Nat := s.pgid.join

/-- What the watchdog does after it has read the file. -/
def readGroup (w : Guard) (group : Option Nat) : Option Guard :=
  match w, group with
  | .probing i, some g => some (.probed i g)
  | .probing _, none => some (.killing 0)
  | .killing i, some g => some (.sending i g)
  | .killing i, none => some (.checkingGroup i)
  | .checkingGroup i, some g => some (.checkedGroup i g)
  | .checkingGroup _, none => some .ended
  | _, _ => none

/-- What it does after a probe of the group: it waits up to 10 s for the end, and repeats the
KILL up to 20 times. -/
def answered (w : Guard) (alive : Bool) : Option Guard :=
  match w with
  | .probed i _ => some (if alive && i < 10 then .probing (i + 1) else .killing 0)
  | .checkedGroup i _ => some (if alive && i + 1 < 20 then .killing (i + 1) else .ended)
  | _ => none

/-- A group that lives answers; one that has ended may still answer for a while. -/
def answers (s : State) (alive : Bool) : Bool :=
  match s.watchdog with
  | .probed _ g => alive || !s.alive g
  | .checkedGroup _ g => alive || !s.alive g
  | _ => false

def watchdogStep (s : State) : Act -> Option State
  | .poll =>
      if s.watchdog = .sleeping then
        some { s with watchdog := if s.stopWatchdog then .ended else .sleeping }
      else none
  | .deadline =>
      if s.watchdog = .sleeping then some { s with watchdog := .flagging } else none
  | .flag =>
      if s.watchdog = .flagging then
        some { s with watchdog := .terminating, timedOut := true, log := s.log ++ [.timedOut] }
      else none
  -- TERM may end a step or not, which can end at any time.
  | .terminate =>
      if s.watchdog = .terminating then some { s with watchdog := .probing 0 } else none
  | .readPgid => (readGroup s.watchdog s.group).map fun w => { s with watchdog := w }
  | .kill => match s.watchdog with
    | .sending i g => some { s.kill g with watchdog := .checkingGroup i }
    | _ => none
  | .answer alive =>
      if answers s alive then
        (answered s.watchdog alive).map fun w => { s with watchdog := w }
      else none
  | _ => none

def step (plan : List Line) (s : State) (a : Act) : Option State :=
  (mainStep plan s a).or (watchdogStep s a)

/-!
## The timeout
-/

/-- After the flag no step is started, and when the watchdog has ended, each step that was
running then was killed or has ended. -/
def Enforced (s : State) : Prop :=
  forall before after, s.log = before ++ .timedOut :: after ->
    (forall k, .started k ∉ after) ∧
    (s.watchdog = .ended -> forall k, .started k ∈ before -> .ended k ∉ before ->
      .killed k ∈ after ∨ .ended k ∈ after)

/-- The rest of the plan has a step that will be started. -/
def startsStep : List Line -> Bool
  | [] => false
  | l :: rest => if l.name = "" then startsStep rest else known l.kind

/-- No step can be started without a look at the flag, and the group of a step that runs is
in the file. -/
def Covered (plan : List Line) (s : State) : Prop :=
  match s.main with
  | .reading k => startsStep (plan.drop k) = false
  | .waiting k .running => s.pgid = some (some k)
  | .waiting _ child => child = .over
  | .removing _ => False
  | .starting _ => False
  | _ => True

/-- The flag is written in a state that is covered. -/
def InTime (plan : List Line) (s : State) (a : Act) : Prop := a = .flag -> Covered plan s

/-!
## The log
-/

theorem concat_eq_append_cons {E : Type} {log before after : List E} {e x : E}
    (h : log ++ [e] = before ++ x :: after) :
    (after = [] ∧ e = x ∧ log = before) ∨
      exists after', after = after' ++ [e] ∧ log = before ++ x :: after' := by
  rcases List.eq_nil_or_concat after with hnil | ⟨after', e', hafter⟩
  · subst hnil
    rcases List.append_inj' h rfl with ⟨hlog, hend⟩
    injection hend with hend
    exact Or.inl ⟨rfl, hend, hlog⟩
  · subst hafter
    rw [List.concat_eq_append, ← List.cons_append, ← List.append_assoc] at h
    rcases List.append_inj' h rfl with ⟨hlog, hend⟩
    injection hend with hend
    exact Or.inr ⟨after', by rw [List.concat_eq_append, hend], hlog⟩

/-- Nothing is started after the flag, and nothing was killed before it. -/
structure Ordered (log : List Event) (flag : Bool) : Prop where
  unset : flag = false -> .timedOut ∉ log ∧ forall k, .killed k ∉ log
  split : forall before after, log = before ++ .timedOut :: after ->
    (forall k, .started k ∉ after) ∧ forall k, .killed k ∉ before

theorem ordered_started {log : List Event} (h : Ordered log false) (k : Nat) :
    Ordered (log ++ [.started k]) false := by
  have hunset := h.unset rfl
  constructor
  · intro _
    simp [hunset]
  · intro before after hlog
    have hmem : .timedOut ∈ log ++ [Event.started k] := by
      rw [hlog]
      simp
    simp [hunset] at hmem

theorem ordered_ended {log : List Event} {flag : Bool} (h : Ordered log flag) (k : Nat) :
    Ordered (log ++ [.ended k]) flag := by
  constructor
  · intro hflag
    simp [h.unset hflag]
  · intro before after hlog
    rcases concat_eq_append_cons hlog with ⟨_, he, _⟩ | ⟨after', rfl, hlog'⟩
    · cases he
    · have hsplit := h.split before after' hlog'
      simp [hsplit]

theorem ordered_killed {log : List Event} (h : Ordered log true) (k : Nat) :
    Ordered (log ++ [.killed k]) true := by
  constructor
  · intro hflag
    cases hflag
  · intro before after hlog
    rcases concat_eq_append_cons hlog with ⟨_, he, _⟩ | ⟨after', rfl, hlog'⟩
    · cases he
    · have hsplit := h.split before after' hlog'
      simp [hsplit]

theorem ordered_timedOut {log : List Event} (h : Ordered log false) :
    Ordered (log ++ [.timedOut]) true := by
  have hunset := h.unset rfl
  constructor
  · intro hflag
    cases hflag
  · intro before after hlog
    rcases concat_eq_append_cons hlog with ⟨rfl, _, rfl⟩ | ⟨after', _, hlog'⟩
    · simp [hunset]
    · have hmem : .timedOut ∈ log := by
        rw [hlog']
        simp
      exact absurd hmem hunset.1

/-!
## The invariant
-/

/-- Every step that was started has ended, was killed, or is the one that is waited for. -/
def Accounted (s : State) : Prop :=
  forall k, .started k ∈ s.log -> .ended k ∈ s.log ∨ .killed k ∈ s.log ∨
    exists child, s.main = .waiting k child ∧ child ≠ .over

/-- Where the watchdog is: before the flag, or after it with a group that it will find. -/
def Placed (s : State) : Prop :=
  match s.watchdog with
  | .sleeping => s.timedOut = false
  | .flagging => s.timedOut = false
  | .ended => s.timedOut = true -> forall k, s.main ≠ .waiting k .running
  | .sending _ g => s.timedOut = true ∧ forall k, s.main = .waiting k .running -> g = k
  | .checkingGroup _ => s.timedOut = true ∧ forall k, s.main ≠ .waiting k .running
  | .checkedGroup _ _ => s.timedOut = true ∧ forall k, s.main ≠ .waiting k .running
  | _ => s.timedOut = true

structure Inv (plan : List Line) (s : State) : Prop where
  ordered : Ordered s.log s.timedOut
  accounted : Accounted s
  placed : Placed s
  pgid : forall k, s.main = .waiting k .running -> s.pgid = some (some k)
  covered : s.timedOut = true -> Covered plan s

theorem inv_init (plan : List Line) : Inv plan {} := by
  constructor
  · constructor <;> simp
  · simp [Accounted]
  · simp [Placed]
  · simp
  · simp

/-- After the flag no group comes to run, so the watchdog stays where it is placed. -/
theorem placed_of_main {s s' : State} (h : Placed s) (hwatchdog : s'.watchdog = s.watchdog)
    (hflag : s'.timedOut = s.timedOut)
    (hrun : s.timedOut = true -> forall k, s'.main = .waiting k .running ->
      s.main = .waiting k .running) : Placed s' := by
  unfold Placed at h ⊢
  rw [hwatchdog, hflag]
  split at h
  · exact h
  · exact h
  · intro htrue k hk
    exact h htrue k (hrun htrue k hk)
  · exact ⟨h.1, fun k hk => h.2 k (hrun h.1 k hk)⟩
  · exact ⟨h.1, fun k hk => h.2 k (hrun h.1 k hk)⟩
  · exact ⟨h.1, fun k hk => h.2 k (hrun h.1 k hk)⟩
  · exact h

/-- A step of the main loop that logs nothing and leaves nothing running. -/
theorem inv_of_quiet {plan : List Line} {s : State} {main : Main} {pgid : Option (Option Nat)}
    {stop : Bool} (h : Inv plan s) (hrun : forall k, main ≠ .waiting k .running)
    (haccounted : forall k child, s.main = .waiting k child -> child ≠ .over ->
      exists child', main = .waiting k child' ∧ child' ≠ .over)
    (hcovered : s.timedOut = true ->
      Covered plan { s with main := main, pgid := pgid, stopWatchdog := stop }) :
    Inv plan { s with main := main, pgid := pgid, stopWatchdog := stop } := by
  refine ⟨h.ordered, ?_, placed_of_main h.placed rfl rfl ?_, ?_, hcovered⟩
  · intro k hk
    rcases h.accounted k hk with hended | hkilled | ⟨child, hmain, hover⟩
    · exact Or.inl hended
    · exact Or.inr (Or.inl hkilled)
    · exact Or.inr (Or.inr (haccounted k child hmain hover))
  · intro _ k hk
    exact absurd hk (hrun k)
  · intro k hk
    exact absurd hk (hrun k)

/-- The end of the step that is waited for. -/
theorem inv_of_end {plan : List Line} {s : State} {k : Nat} {child : Child} (h : Inv plan s)
    (hmain : s.main = .waiting k child) :
    Inv plan { s with main := .waiting k .over, log := s.log ++ [.ended k] } := by
  refine ⟨ordered_ended h.ordered k, ?_, placed_of_main h.placed rfl rfl ?_, ?_, ?_⟩
  · intro j hj
    have hj' : .started j ∈ s.log := by simpa using hj
    rcases h.accounted j hj' with hended | hkilled | ⟨child', hmain', _⟩
    · exact Or.inl (by simp [hended])
    · exact Or.inr (Or.inl (by simp [hkilled]))
    · rw [hmain] at hmain'
      injection hmain' with hk _
      exact Or.inl (by simp [hk])
  · intro _ j hj
    cases hj
  · intro j hj
    cases hj
  · intro _
    rfl

theorem startsStep_drop {plan : List Line} {k : Nat} (h : startsStep (plan.drop k) = false) :
    (exists j, readLine plan k = .reading j ∧ startsStep (plan.drop j) = false) ∨
      readLine plan k = .leaving := by
  unfold readLine
  cases hline : plan[k]? with
  | none => exact Or.inr rfl
  | some l =>
      have hdrop : plan.drop k = l :: plan.drop (k + 1) := by
        rcases List.getElem?_eq_some_iff.mp hline with ⟨hlt, hget⟩
        rw [List.drop_eq_getElem_cons hlt, hget]
      rw [hdrop, startsStep] at h
      by_cases hname : l.name = ""
      · rw [if_pos hname] at h
        exact Or.inl ⟨k + 1, by simp [hname], h⟩
      · rw [if_neg hname] at h
        exact Or.inr (by simp [hname, h])

/-- The main loop keeps the invariant: after the flag it starts no step, because it looks at
the flag after the step that it waits for. -/
theorem mainStep_inv {plan : List Line} {s s' : State} {a : Act} (h : Inv plan s)
    (hstep : mainStep plan s a = some s') : Inv plan s' := by
  cases a with
  | readLine =>
      cases hmain : s.main with
      | reading k =>
          rw [mainStep, hmain] at hstep
          cases hstep
          refine inv_of_quiet h ?_ (by simp [hmain]) ?_
          · intro j hj
            unfold readLine at hj
            split at hj
            · cases hj
            · split_ifs at hj
          · intro hflag
            have hcovered := h.covered hflag
            rw [Covered, hmain] at hcovered
            rcases startsStep_drop hcovered with ⟨j, hread, hrest⟩ | hread
            · rw [hread]
              exact hrest
            · rw [hread]
              exact True.intro
      | _ => simp [mainStep, hmain] at hstep
  | remove =>
      cases hmain : s.main with
      | removing k =>
          rw [mainStep, hmain] at hstep
          cases hstep
          refine inv_of_quiet h (by simp) (by simp [hmain]) ?_
          intro hflag
          have hcovered := h.covered hflag
          rw [Covered, hmain] at hcovered
          exact hcovered
      | _ => simp [mainStep, hmain] at hstep
  | start =>
      cases hmain : s.main with
      | starting k =>
          rw [mainStep, hmain] at hstep
          cases hstep
          have hflag : s.timedOut = false := by
            by_contra hflag
            have hcovered := h.covered (by simpa using hflag)
            rw [Covered, hmain] at hcovered
            exact hcovered
          have hordered := h.ordered
          rw [hflag] at hordered
          refine ⟨?_, ?_, placed_of_main h.placed rfl rfl ?_, ?_, ?_⟩
          · rw [hflag]
            exact ordered_started hordered k
          · intro j hj
            rw [List.mem_append] at hj
            rcases hj with hj | hj
            · rcases h.accounted j hj with hended | hkilled | ⟨child, hmain', _⟩
              · exact Or.inl (by simp [hended])
              · exact Or.inr (Or.inl (by simp [hkilled]))
              · rw [hmain] at hmain'
                cases hmain'
            · have hk : j = k := by simpa using hj
              exact Or.inr (Or.inr ⟨.entering, by rw [hk], by simp⟩)
          · intro _ j hj
            cases hj
          · intro j hj
            cases hj
          · intro htrue
            rw [hflag] at htrue
            cases htrue
      | _ => simp [mainStep, hmain] at hstep
  | cdFails =>
      cases hmain : s.main with
      | waiting k child =>
          cases child with
          | entering =>
              rw [mainStep, hmain] at hstep
              cases hstep
              exact inv_of_end h hmain
          | _ => simp [mainStep, hmain] at hstep
      | _ => simp [mainStep, hmain] at hstep
  | spawn =>
      cases hmain : s.main with
      | waiting k child =>
          cases child with
          | entering =>
              rw [mainStep, hmain] at hstep
              cases hstep
              refine inv_of_quiet h (by simp) (by simp [hmain]) ?_
              intro hflag
              have hcovered := h.covered hflag
              rw [Covered, hmain] at hcovered
              cases hcovered
          | _ => simp [mainStep, hmain] at hstep
      | _ => simp [mainStep, hmain] at hstep
  | createPgid =>
      cases hmain : s.main with
      | waiting k child =>
          cases child with
          | spawned =>
              rw [mainStep, hmain] at hstep
              cases hstep
              refine inv_of_quiet h (by simp) (by simp [hmain]) ?_
              intro hflag
              have hcovered := h.covered hflag
              rw [Covered, hmain] at hcovered
              cases hcovered
          | _ => simp [mainStep, hmain] at hstep
      | _ => simp [mainStep, hmain] at hstep
  | writePgid =>
      cases hmain : s.main with
      | waiting k child =>
          cases child with
          | created =>
              rw [mainStep, hmain] at hstep
              cases hstep
              have hflag : s.timedOut ≠ true := by
                intro hflag
                have hcovered := h.covered hflag
                rw [Covered, hmain] at hcovered
                cases hcovered
              refine ⟨h.ordered, ?_, placed_of_main h.placed rfl rfl ?_, ?_, ?_⟩
              · intro j hj
                rcases h.accounted j hj with hended | hkilled | ⟨child, hmain', _⟩
                · exact Or.inl hended
                · exact Or.inr (Or.inl hkilled)
                · rw [hmain] at hmain'
                  injection hmain' with hk _
                  exact Or.inr (Or.inr ⟨.running, by rw [hk], by simp⟩)
              · intro htrue
                exact absurd htrue hflag
              · intro j hj
                injection hj with hk _
                rw [hk]
              · intro htrue
                exact absurd htrue hflag
          | _ => simp [mainStep, hmain] at hstep
      | _ => simp [mainStep, hmain] at hstep
  | finish =>
      cases hmain : s.main with
      | waiting k child =>
          cases child with
          | running =>
              rw [mainStep, hmain] at hstep
              cases hstep
              exact inv_of_end h hmain
          | _ => simp [mainStep, hmain] at hstep
      | _ => simp [mainStep, hmain] at hstep
  | waitReturns =>
      cases hmain : s.main with
      | waiting k child =>
          cases child with
          | «over» =>
              rw [mainStep, hmain] at hstep
              cases hstep
              exact inv_of_quiet h (by simp) (by simp [hmain]) (fun _ => True.intro)
          | _ => simp [mainStep, hmain] at hstep
      | _ => simp [mainStep, hmain] at hstep
  | check rc =>
      cases hmain : s.main with
      | checking k =>
          rw [mainStep, hmain] at hstep
          cases hstep
          refine inv_of_quiet h ?_ (by simp [hmain]) ?_
          · intro j hj
            unfold checked at hj
            split_ifs at hj
          · intro hflag
            rw [checked, if_pos hflag]
            exact True.intro
      | _ => simp [mainStep, hmain] at hstep
  | leave =>
      cases hmain : s.main with
      | leaving =>
          rw [mainStep, hmain] at hstep
          cases hstep
          exact inv_of_quiet h (by simp) (by simp [hmain]) (fun _ => True.intro)
      | _ => simp [mainStep, hmain] at hstep
  | _ => cases hstep

/-- A step of the watchdog that changes only what it does next. -/
theorem inv_of_watchdog {plan : List Line} {s : State} {w : Guard} (h : Inv plan s)
    (hplaced : Placed { s with watchdog := w }) : Inv plan { s with watchdog := w } :=
  ⟨h.ordered, h.accounted, hplaced, h.pgid, h.covered⟩

/-- A group that is read after the flag is the one that runs. -/
theorem placed_readGroup {plan : List Line} {s : State} {w : Guard} (h : Inv plan s)
    (hread : readGroup s.watchdog s.group = some w) : Placed { s with watchdog := w } := by
  have hplaced := h.placed
  have hgroup : forall k, s.main = .waiting k .running -> s.group = some k := by
    intro k hk
    rw [State.group, h.pgid k hk]
    rfl
  unfold Placed at hplaced
  cases hwatchdog : s.watchdog with
  | probing i =>
      rw [hwatchdog] at hread hplaced
      cases hfound : s.group with
      | none =>
          rw [hfound] at hread
          cases hread
          exact hplaced
      | some g =>
          rw [hfound] at hread
          cases hread
          exact hplaced
  | killing i =>
      rw [hwatchdog] at hread hplaced
      cases hfound : s.group with
      | none =>
          rw [hfound] at hread
          cases hread
          refine ⟨hplaced, fun k hk => ?_⟩
          rw [hgroup k hk] at hfound
          cases hfound
      | some g =>
          rw [hfound] at hread
          cases hread
          refine ⟨hplaced, fun k hk => ?_⟩
          rw [hgroup k hk] at hfound
          exact (Option.some.inj hfound).symm
  | checkingGroup i =>
      rw [hwatchdog] at hread hplaced
      cases hfound : s.group with
      | none =>
          rw [hfound] at hread
          cases hread
          exact fun _ => hplaced.2
      | some g =>
          rw [hfound] at hread
          cases hread
          exact hplaced
  | _ =>
      rw [hwatchdog] at hread
      cases hread

theorem placed_answered {plan : List Line} {s : State} {w : Guard} {alive : Bool}
    (h : Inv plan s) (hanswer : answered s.watchdog alive = some w) :
    Placed { s with watchdog := w } := by
  have hplaced := h.placed
  unfold Placed at hplaced
  cases hwatchdog : s.watchdog with
  | probed i g =>
      rw [hwatchdog] at hanswer hplaced
      rw [answered] at hanswer
      cases hanswer
      split_ifs
      · exact hplaced
      · exact hplaced
  | checkedGroup i g =>
      rw [hwatchdog] at hanswer hplaced
      rw [answered] at hanswer
      cases hanswer
      split_ifs
      · exact hplaced.1
      · exact fun _ => hplaced.2
  | _ =>
      rw [hwatchdog] at hanswer
      cases hanswer

/-- KILL for the group that was read leaves no step running. -/
theorem inv_kill {plan : List Line} {s : State} {i g : Nat} (h : Inv plan s)
    (hwatchdog : s.watchdog = .sending i g) :
    Inv plan { s.kill g with watchdog := .checkingGroup i } := by
  have hplaced := h.placed
  rw [Placed, hwatchdog] at hplaced
  rcases hplaced with ⟨hflag, htarget⟩
  unfold State.kill
  by_cases halive : s.alive g = true
  · rw [if_pos halive]
    have hordered := h.ordered
    rw [hflag] at hordered
    refine ⟨?_, ?_, ⟨hflag, by simp⟩, by simp, fun _ => rfl⟩
    · rw [hflag]
      exact ordered_killed hordered g
    · intro k hk
      have hk' : .started k ∈ s.log := by simpa using hk
      rcases h.accounted k hk' with hended | hkilled | ⟨child, hmain, hover⟩
      · exact Or.inl (by simp [hended])
      · exact Or.inr (Or.inl (by simp [hkilled]))
      · have hgroup : g = k := by
          unfold State.alive at halive
          rw [hmain] at halive
          cases child <;> simp at halive <;> exact halive.symm
        exact Or.inr (Or.inl (by simp [hgroup]))
  · rw [if_neg halive]
    refine inv_of_watchdog h ⟨hflag, fun k hk => halive ?_⟩
    have hmain : s.main = .waiting k .running := hk
    rw [htarget k hmain, State.alive, hmain]
    exact beq_self_eq_true k

/-- The watchdog keeps the invariant if it writes the flag in time. -/
theorem watchdogStep_inv {plan : List Line} {s s' : State} {a : Act} (h : Inv plan s)
    (hok : InTime plan s a) (hstep : watchdogStep s a = some s') : Inv plan s' := by
  have hplaced := h.placed
  unfold Placed at hplaced
  cases a with
  | poll =>
      rw [watchdogStep] at hstep
      split_ifs at hstep with hwatchdog hstop
      · cases hstep
        rw [hwatchdog] at hplaced
        refine inv_of_watchdog h ?_
        intro htrue
        exact absurd (hplaced.symm.trans htrue) (by simp)
      · cases hstep
        rw [hwatchdog] at hplaced
        exact inv_of_watchdog h hplaced
  | deadline =>
      rw [watchdogStep] at hstep
      split_ifs at hstep with hwatchdog
      cases hstep
      rw [hwatchdog] at hplaced
      exact inv_of_watchdog h hplaced
  | flag =>
      rw [watchdogStep] at hstep
      split_ifs at hstep with hwatchdog
      cases hstep
      rw [hwatchdog] at hplaced
      have hordered := h.ordered
      rw [hplaced] at hordered
      refine ⟨ordered_timedOut hordered, ?_, rfl, h.pgid, fun _ => hok rfl⟩
      intro k hk
      have hk' : .started k ∈ s.log := by simpa using hk
      rcases h.accounted k hk' with hended | hkilled | hopen
      · exact Or.inl (by simp [hended])
      · exact Or.inr (Or.inl (by simp [hkilled]))
      · exact Or.inr (Or.inr hopen)
  | terminate =>
      rw [watchdogStep] at hstep
      split_ifs at hstep with hwatchdog
      cases hstep
      rw [hwatchdog] at hplaced
      exact inv_of_watchdog h hplaced
  | readPgid =>
      rw [watchdogStep, Option.map_eq_some_iff] at hstep
      rcases hstep with ⟨w, hw, rfl⟩
      exact inv_of_watchdog h (placed_readGroup h hw)
  | kill =>
      cases hwatchdog : s.watchdog with
      | sending i g =>
          rw [watchdogStep, hwatchdog] at hstep
          cases hstep
          exact inv_kill h hwatchdog
      | _ => simp [watchdogStep, hwatchdog] at hstep
  | answer alive =>
      rw [watchdogStep] at hstep
      split_ifs at hstep
      rw [Option.map_eq_some_iff] at hstep
      rcases hstep with ⟨w, hw, rfl⟩
      exact inv_of_watchdog h (placed_answered h hw)
  | _ => cases hstep

theorem step_inv {plan : List Line} {s s' : State} {a : Act} (h : Inv plan s)
    (hok : InTime plan s a) (hstep : step plan s a = some s') : Inv plan s' := by
  rw [step, Option.or_eq_some_iff] at hstep
  rcases hstep with hmain | ⟨_, hwatchdog⟩
  · exact mainStep_inv h hmain
  · exact watchdogStep_inv h hok hwatchdog

theorem enforced_of_inv {plan : List Line} {s : State} (h : Inv plan s) : Enforced s := by
  intro before after hlog
  have hsplit := h.ordered.split before after hlog
  refine ⟨hsplit.1, ?_⟩
  intro hended k hstarted hnot
  have hflag : s.timedOut = true := by
    by_contra hflag
    have hunset := (h.ordered.unset (by simpa using hflag)).1
    rw [hlog] at hunset
    simp at hunset
  have hplaced := h.placed
  rw [Placed, hended] at hplaced
  have hover : forall child, s.main = .waiting k child -> child = .over := by
    intro child hmain
    have hcovered := h.covered hflag
    rw [Covered, hmain] at hcovered
    cases child with
    | running => exact absurd hmain (hplaced hflag k)
    | _ => exact hcovered
  have haccounted := h.accounted k (by rw [hlog]; simp [hstarted])
  rw [hlog] at haccounted
  rcases haccounted with hmem | hmem | ⟨child, hmain, hne⟩
  · have hmem' : .ended k ∈ after := by simpa [hnot] using hmem
    exact Or.inr hmem'
  · have hmem' : .killed k ∈ after := by simpa [hsplit.2 k] using hmem
    exact Or.inl hmem'
  · exact absurd (hover child hmain) hne

/-- In every run whose flag is written in time, the timeout is enforced. -/
theorem timeout_enforced (plan : List Line) {s : State}
    (h : Transition.Reached (step plan) (InTime plan) {} s) : Enforced s :=
  enforced_of_inv (h.invariant (inv_init plan) fun _ _ _ _ hinv hok hstep =>
    step_inv hinv hok hstep)

/-- A build step and a command. -/
def twoSteps : List Line := [⟨"build", "build", "make"⟩, ⟨"test", "command", "ctest"⟩]

/-- The first step runs, with its group in the file. -/
def firstRuns : List Act := [.readLine, .remove, .start, .spawn, .createPgid, .writePgid]

/-- TERM ends the step, and the watchdog finds that its group is gone. -/
def terminated : List Act :=
  [.terminate, .finish, .readPgid, .answer false, .readPgid, .kill, .readPgid, .answer false]

def running : State where
  main := .waiting 0 .running
  watchdog := .flagging
  pgid := some (some 0)
  log := [.started 0]

def flagged : State where
  main := .waiting 0 .running
  watchdog := .terminating
  pgid := some (some 0)
  timedOut := true
  log := [.started 0, .timedOut]

def ended : State where
  main := .waiting 0 .over
  watchdog := .ended
  pgid := some (some 0)
  timedOut := true
  log := [.started 0, .timedOut, .ended 0]

/-- A step that runs when the time is over: the watchdog ends it. -/
theorem timeout_enforced_running :
    Transition.Reached (step twoSteps) (InTime twoSteps) {} ended ∧ Enforced ended := by
  have hinTime : forall moves : List Act, .flag ∉ moves ->
      forall a, a ∈ moves -> forall s, InTime twoSteps s a := by
    intro moves hmoves a ha s hflag
    rw [hflag] at ha
    exact absurd ha hmoves
  have hruns : Transition.Reached (step twoSteps) (InTime twoSteps) {} running :=
    Transition.Reached.init.replay (hinTime (firstRuns ++ [.deadline]) (by decide)) (by decide)
  have hmove : step twoSteps running .flag = some flagged := by decide
  have hflagged : Transition.Reached (step twoSteps) (InTime twoSteps) {} flagged :=
    Transition.Reached.step hruns (fun _ => rfl) hmove
  have hended : Transition.Reached (step twoSteps) (InTime twoSteps) {} ended :=
    hflagged.replay (hinTime terminated (by decide)) (by decide)
  exact ⟨hended, timeout_enforced twoSteps hended⟩

/-- The flag is written after the main loop has looked at it and before the next step starts:
the step is started. -/
theorem started_after_flag :
    ¬ forall s, Transition.Reached (step twoSteps) (fun _ _ => True) {} s -> Enforced s := by
  intro h
  have hreplay : Transition.replay (step twoSteps) {} (firstRuns ++ [.finish, .waitReturns,
      .check 0, .deadline, .flag, .readLine, .remove, .start]) =
        some { main := .waiting 1 .entering, watchdog := .terminating, timedOut := true,
               log := [.started 0, .ended 0, .timedOut, .started 1] } := by
    decide
  have hreached := Transition.Reached.init.replay (fun _ _ _ => True.intro) hreplay
  have hnone := (h _ hreached [.started 0, .ended 0] [.started 1] rfl).1 1
  exact hnone List.mem_cons_self

end Watchdog
end Dev
end Ostia

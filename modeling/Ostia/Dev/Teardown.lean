import Ostia.Dev.Remote

/-!
# What a remote run leaves

Two results about every run, whatever its calls raise and wherever signals arrive: a Job
whose apply was sent gets its delete, when no signal falls into the window before the
delete, and a run that exits with 0 passed, was not interrupted and left nothing behind.
-/

namespace Ostia
namespace Dev

open Foundation

namespace Remote

variable {F : Type}

/-!
## The delete of a Job
-/

/-- The Job may be there: its apply was sent. -/
def Applied (w : World F) : Prop := .called .applyJob ∈ w.log

/-- A Job that may be there is marked. -/
def Marked (w : World F) : Prop := Applied w -> w.created = true

/-- The delete ran to its end, or to an error that kubectl reported. -/
def Deleted (w : World F) : Prop := .deleteEnded ∈ w.log

theorem applied_tick {w : World F} {events : List Event} (h : .called .applyJob ∉ events) :
    Applied (w.tick events) <-> Applied w := by
  unfold Applied World.tick
  simp [h]

/-- A call other than the apply keeps a Job marked. -/
theorem marked_perform {env : Env F} {c : Call} (hc : c ≠ .applyJob) :
    (perform env c).Holds Marked anywhere (fun _ => Marked) (fun _ => Marked) := by
  have htick : forall (w : World F) (events : List Event),
      (forall e, e ∈ events -> e = .interrupt ∨ e = .called c) -> Marked w ->
      Marked (w.tick events) := by
    intro w events hevents hw happlied
    refine hw ((applied_tick ?_).mp happlied)
    intro hmem
    rcases hevents _ hmem with h | h
    · cases h
    · injection h with h
      exact hc h.symm
  refine Effect.Holds.bind (Q := fun _ => Marked) ?_ ?_
  · exact holds_point (fun w hw _ => htick w [] (by simp) hw)
      (fun w hw _ => htick w _ (by simp) hw)
  · intro _
    refine holds_call (fun w hw => htick w _ (by simp) hw) ?_
    intro w e hw _
    refine htick w _ ?_ hw
    unfold trace
    split_ifs <;> simp

theorem stable_created : Stable fun w : World F => w.created = true :=
  fun _ hw => ⟨hw, fun _ => hw⟩

/-- Once the Job is marked, every call leaves it marked. -/
theorem created_perform {env : Env F} {c : Call} :
    (perform env c).Holds (fun w => w.created = true) anywhere
      (fun _ w => w.created = true) (fun _ w => w.created = true) :=
  holds_perform stable_created (fun _ hw => ⟨hw, hw⟩) (fun _ _ hw _ => hw)

theorem marked_point {env : Env F} {c : Call} :
    (point env c).Holds Marked anywhere (fun _ => Marked) (fun _ => Marked) := by
  refine holds_point ?_ ?_
  · intro w hw _ happlied
    exact hw ((applied_tick (by simp)).mp happlied)
  · intro w hw _ happlied
    exact hw ((applied_tick (by simp)).mp happlied)

theorem created_createOwned (spec : Spec) (env : Env F) :
    (createOwned spec env).Holds (fun w => w.created = true) anywhere
      (fun _ w => w.created = true) (fun _ w => w.created = true) := by
  refine Effect.Holds.bind (holds_when created_perform) fun _ => ?_
  refine holds_when ?_
  refine Effect.Holds.bind created_perform fun _ => ?_
  refine Effect.Holds.bind created_perform fun _ => ?_
  exact holds_now_bind fun n => holds_when created_perform

/-- The start marks the Job before it sends the apply. -/
theorem start_marks (spec : Spec) (env : Env F) :
    (start spec env).Holds Marked anywhere (fun _ w => w.created = true) (fun _ => Marked) := by
  have hcache : (ensureCache spec env).Holds Marked anywhere (fun _ => Marked)
      (fun _ => Marked) := by
    refine holds_when ?_
    refine Effect.Holds.bind (marked_perform (by decide)) fun _ => ?_
    exact holds_now_bind fun n => holds_when (marked_perform (by decide))
  have hmarked : forall (e : Raised) (w : World F), w.created = true -> Marked w :=
    fun _ _ hw _ => hw
  have hrest : Effect.Holds (do
      perform env .applyJob
      perform env .readUid
      createOwned spec env
      perform env .patchJob
      perform env .waitRunning) (fun w => w.created = true) anywhere
      (fun _ w => w.created = true) (fun _ w => w.created = true) := by
    refine Effect.Holds.bind created_perform fun _ => ?_
    refine Effect.Holds.bind created_perform fun _ => ?_
    refine Effect.Holds.bind (created_createOwned spec env) fun _ => ?_
    exact Effect.Holds.bind created_perform fun _ => created_perform
  refine Effect.Holds.bind hcache fun _ => ?_
  refine Effect.Holds.bind (marked_perform (by decide)) fun _ => ?_
  refine Effect.Holds.bind marked_point fun _ => ?_
  refine Effect.Holds.bind (holds_set (Q := fun w => w.created = true) fun _ _ => rfl)
    fun _ => ?_
  exact hrest.weaken (fun _ hw => hw) (fun _ hw => hw) (fun _ _ hw => hw) hmarked

theorem created_point {env : Env F} {c : Call} :
    (point env c).Holds (fun w => w.created = true) anywhere
      (fun _ w => w.created = true) (fun _ w => w.created = true) :=
  holds_point (fun _ hw _ => hw) (fun _ hw _ => hw)

theorem created_call {env : Env F} {c : Call} :
    (call env c).Holds (fun w => w.created = true) anywhere
      (fun _ w => w.created = true) (fun _ w => w.created = true) :=
  holds_call (fun _ hw => hw) (fun _ _ hw _ => hw)

theorem created_collect (spec : Spec) (env : Env F) :
    (collect spec env).Holds (fun w => w.created = true) anywhere
      (fun _ w => w.created = true) (fun _ w => w.created = true) := by
  refine Effect.Holds.bind created_point fun _ => holds_now_bind fun n => ?_
  refine Effect.Holds.bind (holds_when (holds_set fun _ hw => hw)) fun _ => ?_
  refine Effect.Holds.bind created_call fun _ => ?_
  exact Effect.holds_pure fun _ hw => hw

theorem created_judgeRank (spec : Spec) (env : Env F) (i : Nat) :
    (judgeRank spec env i).Holds (fun w => w.created = true) anywhere
      (fun _ w => w.created = true) (fun _ w => w.created = true) := by
  refine Effect.Holds.bind created_perform fun _ => ?_
  refine Effect.Holds.bind created_perform fun _ => ?_
  refine Effect.Holds.bind created_perform fun _ => ?_
  refine Effect.Holds.bind created_point fun _ => holds_now_bind fun n => ?_
  refine Effect.Holds.bind created_call fun _ => ?_
  exact holds_set fun _ hw => hw

/-- However the body ends, a Job whose apply was sent is marked. -/
theorem work_marks [JsonText.FloatText F] (spec : Spec) (env : Env F) :
    (work spec env).Holds Marked anywhere (fun _ => Marked) (fun _ => Marked) := by
  have hrest : Effect.Holds (do
      perform env .upload
      perform env .stream
      let n ← collect spec env
      Effect.each (judgeRank spec env) (List.range n)
      set fun w =>
        let v := Guards.combine env.python w.ranks
        { w with verdict := some v, infra := v.infra }
      merge env) (fun w => w.created = true) anywhere
      (fun _ w => w.created = true) (fun _ w => w.created = true) := by
    refine Effect.Holds.bind created_perform fun _ => ?_
    refine Effect.Holds.bind created_perform fun _ => ?_
    refine Effect.Holds.bind (created_collect spec env) fun n => ?_
    have heach := Effect.holds_each (J := fun _ (w : World F) => w.created = true) (List.range n)
      (fun _ i _ => created_judgeRank spec env i) []
    refine Effect.Holds.bind heach fun _ => ?_
    refine Effect.Holds.bind (holds_set (Q := fun w => w.created = true) fun _ hw => hw) fun _ => ?_
    refine Effect.Holds.bind created_point fun _ => holds_now_bind fun n => ?_
    refine Effect.holds_ofExcept_bind (fun _ _ _ hw => hw) fun found _ => ?_
    exact Effect.Holds.bind created_call fun _ => holds_set fun _ hw => hw
  have hmarked : forall w : World F, w.created = true -> Marked w := fun _ hw _ => hw
  refine Effect.Holds.bind (start_marks spec env) fun _ => ?_
  exact hrest.weaken (fun _ hw => hw) (fun _ hw => hw) (fun _ w hw => hmarked w hw)
    (fun _ w hw => hmarked w hw)

/-- So is one after the exception was reported. -/
theorem onRaised_marks (env : Env F) (e : Raised) :
    (onRaised env e).Holds Marked anywhere (fun _ => Marked) (fun _ => Marked) := by
  cases e with
  | keyboardInterrupt =>
      exact Effect.Holds.bind (holds_set (Q := Marked) fun _ hw => hw)
        fun _ => marked_perform (by decide)
  | lostConnection => exact holds_set fun _ hw => hw
  | infraError => exact holds_set fun _ hw => hw
  | usageError => exact holds_set fun _ hw => hw
  | other name =>
      exact Effect.Holds.bind (marked_perform (by decide)) fun _ => holds_set fun _ hw => hw

/-- No signal and no error falls between the entry of the teardown and the end of the delete,
other than what the wait for a kept run allows. -/
structure Undisturbed (env : Env F) : Prop where
  enterTeardown : forall n, env.signal .enterTeardown n = none
  enterDelete : forall n, env.signal .enterDelete n = none
  delete : forall n, env.signal .delete n ≠ some .sigterm
  deletion : forall n e, env.deletion n ≠ .raised e
  keptStatus : forall n e, env.raises .keptStatus n = some e ->
    e = .keyboardInterrupt ∨ e = .lostConnection
  keptSleep : forall n e, env.raises .keptSleep n = some e -> e = .keyboardInterrupt

section

variable {env : Env F}

/-- A signal between the polls of a kept run ends the wait. -/
theorem perform_interrupts {c : Call}
    (h : forall n e, env.raises c n = some e -> e = .keyboardInterrupt) :
    (perform env c).Holds anywhere anywhere (fun _ => anywhere)
      (fun e _ => e = .keyboardInterrupt) := by
  refine Effect.Holds.bind (Q := fun _ => anywhere) ?_ fun _ => ?_
  · exact holds_point (fun _ _ _ => True.intro) (fun _ _ _ => rfl)
  · exact holds_call (fun _ _ => True.intro) (fun w e _ he => h _ e he)

/-- Nothing but an interrupt leaves the wait for a kept run. -/
theorem keptLoop_interrupts (h : Undisturbed env) (ticks : Nat) :
    (keptLoop env ticks).Holds anywhere anywhere (fun _ => anywhere)
      (fun e _ => e = .keyboardInterrupt) := by
  induction ticks with
  | zero => exact Effect.holds_pure fun _ _ => True.intro
  | succ ticks ih =>
      have hstatus : Effect.Holds (do
          perform env .keptStatus
          pure false : Step F Bool) anywhere anywhere (fun _ => anywhere)
          (fun e _ => e = .keyboardInterrupt ∨ e = .lostConnection) := by
        refine Effect.Holds.bind (Q := fun _ => anywhere) ?_ fun _ =>
          Effect.holds_pure fun _ _ => True.intro
        refine Effect.Holds.bind (Q := fun _ => anywhere) ?_ fun _ => ?_
        · exact holds_point (fun _ _ _ => True.intro) (fun _ _ _ => Or.inl rfl)
        · exact holds_call (fun _ _ => True.intro) (fun w e _ he => h.keptStatus _ e he)
      rw [keptLoop]
      refine Effect.Holds.bind (hstatus.handle (T := fun e _ => e = .keyboardInterrupt) ?_)
        fun lost => ?_
      · intro e
        split
        · exact Effect.holds_pure fun _ _ => True.intro
        · rename_i hne
          exact Effect.holds_throw fun _ he => he.resolve_right (fun heq => hne heq)
      · refine holds_now_bind fun n => ?_
        split_ifs
        · exact Effect.Holds.bind (perform_interrupts h.keptSleep) fun _ => ih
        · exact Effect.holds_pure fun _ _ => True.intro

theorem waitKept_returns (h : Undisturbed env) :
    (waitKept env).Holds anywhere anywhere (fun _ => anywhere) (fun _ _ => False) := by
  refine (keptLoop_interrupts h env.keptTicks).handle ?_
  rintro e
  split
  · exact holds_set fun _ _ => True.intro
  · rename_i hne
    exact Effect.holds_throw fun _ he => hne he

/-- The request is sent and runs to its end, whatever SIGINT arrives. -/
theorem delete_deletes (h : Undisturbed env) :
    (delete env).Holds anywhere anywhere (fun _ => Deleted) (fun _ => Deleted) := by
  have hrequest : (request env).Holds (fun w => w.sigintIgnored = true) anywhere
      (fun _ => Deleted) (fun _ => Deleted) := by
    refine Effect.Holds.bind (Q := fun _ => anywhere) ?_ fun _ => ?_
    · refine holds_point (fun _ _ _ => True.intro) ?_
      intro w hw hstruck
      unfold struck at hstruck
      split at hstruck
      · cases hstruck
      · rename_i hsignal
        exact absurd hsignal (h.delete _)
      · rw [hw] at hstruck
        cases hstruck
    · intro w _
      unfold kubectlDelete
      cases hdeletion : env.deletion w.clock with
      | completed => exact ⟨fun _ _ => True.intro, by simp [Deleted, World.tick]⟩
      | refused lost usage => exact ⟨fun _ _ => True.intro, by simp [Deleted, World.tick]⟩
      | raised e => exact absurd hdeletion (h.deletion _ e)
  refine Effect.Holds.bind (Q := fun _ => anywhere) ?_ fun _ => ?_
  · refine holds_point (fun _ _ _ => True.intro) ?_
    intro w _ hstruck
    rw [struck, h.enterDelete] at hstruck
    cases hstruck
  · refine Effect.Holds.bind (holds_set (Q := fun w => w.sigintIgnored = true) fun _ _ => rfl)
      fun _ => ?_
    exact hrequest.ensure (fun _ _ hw => ⟨True.intro, hw⟩) (fun _ _ hw => ⟨True.intro, hw⟩)

end

theorem deleted_tick {w : World F} {events : List Event} (h : Deleted w) :
    Deleted (w.tick events) := List.mem_append_left events h

theorem deleted_perform {env : Env F} {c : Call} :
    (perform env c).Holds Deleted anywhere (fun _ => Deleted) (fun _ => Deleted) :=
  holds_perform (fun _ hw => ⟨deleted_tick hw, fun _ => deleted_tick hw⟩)
    (fun _ hw => ⟨deleted_tick hw, deleted_tick hw⟩) (fun _ _ hw _ => hw)

theorem deleted_statusLoop {env : Env F} (ticks : Nat) :
    (statusLoop env ticks).Holds Deleted anywhere (fun _ => Deleted) (fun _ => Deleted) := by
  have hobserve : (observe env).Holds Deleted anywhere (fun _ => Deleted) (fun _ => Deleted) := by
    refine Effect.Holds.bind deleted_perform fun _ => holds_now_bind fun n => ?_
    refine Effect.Holds.bind (holds_when (holds_set fun _ hw => deleted_tick hw)) fun _ => ?_
    exact Effect.holds_pure fun _ hw => hw
  induction ticks with
  | zero => exact hobserve
  | succ ticks ih =>
      refine Effect.Holds.bind hobserve fun empty => ?_
      split_ifs
      · exact Effect.holds_pure fun _ hw => hw
      · exact Effect.Holds.bind deleted_perform fun _ => ih

/-- No Job is left behind: what was applied was deleted. -/
def NothingLost (w : World F) : Prop := Applied w -> Deleted w

theorem nothingLost_perform {env : Env F} {c : Call} (hc : c ≠ .applyJob) :
    (perform env c).Holds NothingLost anywhere (fun _ => NothingLost) (fun _ => NothingLost) := by
  have htick : forall (w : World F) (events : List Event),
      .called .applyJob ∉ events -> NothingLost w -> NothingLost (w.tick events) := by
    intro w events hevents hw happlied
    exact deleted_tick (hw ((applied_tick hevents).mp happlied))
  refine Effect.Holds.bind (Q := fun _ => NothingLost) ?_ fun _ => ?_
  · exact holds_point (fun w hw _ => htick w _ (by simp) hw) (fun w hw _ => htick w _ (by simp) hw)
  · refine holds_call (fun w hw => htick w _ (by simp [hc.symm]) hw) ?_
    intro w e hw _
    refine htick w _ ?_ hw
    unfold trace
    split_ifs <;> simp [hc.symm]

theorem teardown_deletes {env : Env F} (h : Undisturbed env) :
    (teardown env).Holds Marked anywhere (fun _ => NothingLost) (fun _ => NothingLost) := by
  refine Effect.Holds.bind (holds_set (Q := Marked) ?_) fun _ => ?_
  · intro w hw happlied
    exact hw ((applied_tick (by simp)).mp happlied)
  refine Effect.Holds.bind (Q := fun _ => Marked) ?_ fun _ => ?_
  · refine holds_point ?_ ?_
    · intro w hw _ happlied
      exact hw ((applied_tick (by simp)).mp happlied)
    · intro w _ hstruck
      rw [struck, h.enterTeardown] at hstruck
      cases hstruck
  refine holds_read_bind fun created => ?_
  cases created with
  | false =>
      refine Effect.holds_pure ?_
      rintro w ⟨hmarked, hcreated⟩ happlied
      rw [hmarked happlied] at hcreated
      cases hcreated
  | true =>
      have hbody : Effect.Holds (do
          let kept ← read World.kept
          when kept (waitKept env)
          delete env
          point env .leaveDelete
          statusLoop env env.teardownTicks : Step F Bool)
          (fun w => Marked w ∧ w.created = true) anywhere (fun _ => Deleted)
          (fun _ => Deleted) := by
        refine holds_read_bind fun kept => ?_
        have hwait : (when kept (waitKept env)).Holds anywhere anywhere (fun _ => anywhere)
            (fun _ => Deleted) := by
          refine holds_when ?_
          exact (waitKept_returns h).weaken (fun _ hw => hw) (fun _ hw => hw) (fun _ _ hw => hw)
            (fun _ _ hw => hw.elim)
        refine Effect.Holds.bind (hwait.weaken (fun _ _ => True.intro) (fun _ hw => hw)
          (fun _ _ hw => hw) (fun _ _ hw => hw)) fun _ => ?_
        refine Effect.Holds.bind (delete_deletes h) fun _ => ?_
        refine Effect.Holds.bind (Q := fun _ => Deleted) ?_ fun _ => deleted_statusLoop _
        exact holds_point (fun _ hw _ => deleted_tick hw) (fun _ hw _ => deleted_tick hw)
      have hlost : forall w : World F, Deleted w -> NothingLost w := fun _ hw _ => hw
      refine Effect.Holds.handle (hbody.weaken (fun _ hw => hw) (fun _ hw => hw)
        (fun _ w hw => hlost w hw) (fun _ w hw => hlost w hw)) ?_
      intro e
      split
      · exact Effect.holds_pure fun _ hw => hw
      · exact Effect.holds_pure fun _ hw => hw
      · exact Effect.holds_pure fun _ hw => hw
      · exact Effect.holds_throw fun _ hw => hw

theorem tearDown_deletes {env : Env F} (h : Undisturbed env) :
    (tearDown env).Holds Marked anywhere (fun _ => NothingLost) (fun _ => NothingLost) := by
  refine Effect.Holds.bind (Q := fun _ => NothingLost) ?_ fun _ => holds_set fun _ hw => hw
  refine Effect.Holds.handle (R := fun _ => NothingLost) ?_ ?_
  · exact Effect.Holds.bind (teardown_deletes h) fun _ => holds_set fun _ hw => hw
  · intro e
    split
    · exact holds_set fun _ hw => hw
    · exact Effect.holds_throw fun _ hw => hw

/-- However a run ends, a Job whose apply was sent got its delete, when nothing disturbs the
teardown before the delete has ended. -/
theorem pipeline_deletes [JsonText.FloatText F] (spec : Spec) (env : Env F)
    (h : Undisturbed env) : NothingLost (pipeline spec env {}).state := by
  have hgc : (perform env .gc).Holds (fun w => ¬ Applied w) anywhere (fun _ => Marked)
      (fun _ => NothingLost) := by
    refine Effect.Holds.bind (Q := fun _ w => ¬ Applied w) ?_ fun _ => ?_
    · refine holds_point ?_ ?_
      · intro w hw _ happlied
        exact hw ((applied_tick (by simp)).mp happlied)
      · intro w hw _ happlied
        exact absurd ((applied_tick (by simp)).mp happlied) hw
    · refine holds_call ?_ ?_
      · intro w hw happlied
        exact absurd ((applied_tick (by simp)).mp happlied) hw
      · intro w e hw _ happlied
        refine absurd ((applied_tick ?_).mp happlied) hw
        unfold trace
        split_ifs <;> simp
  have hbody := ((work_marks spec env).handle (onRaised_marks env)).finallyDo
    (fun _ => tearDown_deletes h) (fun _ => tearDown_deletes h)
  have hrun : (pipeline spec env).Holds (fun w => ¬ Applied w) anywhere (fun _ => NothingLost)
      (fun _ => NothingLost) := by
    refine Effect.Holds.bind hgc fun _ => ?_
    refine Effect.Holds.bind hbody fun _ => ?_
    refine holds_read_bind fun code => ?_
    refine Effect.Holds.bind (Q := fun _ => NothingLost) ?_ fun _ =>
      Effect.holds_pure fun _ hw => hw
    exact (nothingLost_perform (by decide)).weaken (fun _ hw => hw.1) (fun _ hw => hw)
      (fun _ _ hw => hw) (fun _ _ hw => hw)
  have hend := (hrun {} (by simp [Applied])).2
  cases hresult : (pipeline spec env {}).result with
  | ok code =>
      rw [hresult] at hend
      exact hend
  | error e =>
      rw [hresult] at hend
      exact hend

/-- A run of one pod that is interrupted while it follows the log, and perhaps once more when
the teardown is entered. -/
def interruptedRun (second : Option Signal) : Env JsonText.Half where
  signal c _ := if c = .enterTeardown then second else none
  raises c _ := if c = .stream then some .keyboardInterrupt else none
  cachePresent _ := true
  policies _ := false
  ranks _ := 1
  failed _ := false
  verdict _ := {}
  benchFiles _ := []
  keptRunning _ := false
  keptTicks := 0
  deletion _ := .completed
  statusEmpty _ := true
  teardownTicks := 0
  python := ⟨fun _ => "", fun _ => .ok [], fun _ => ""⟩

def onePod : Spec := ⟨false, false, 1, 0⟩

/-- One interrupt: the Job was applied and deleted. -/
theorem pipeline_deletes_interrupted :
    Applied (pipeline onePod (interruptedRun none) {}).state ∧
      Deleted (pipeline onePod (interruptedRun none) {}).state := by
  have happlied : Applied (pipeline onePod (interruptedRun none) {}).state := by
    unfold Applied
    decide
  refine ⟨happlied, pipeline_deletes onePod (interruptedRun none) ?_ happlied⟩
  constructor <;> simp [interruptedRun]

/-- A second interrupt at the entry of the teardown: the run ends with 130 and the Job stays. -/
theorem second_interrupt_skips_delete :
    (pipeline onePod (interruptedRun (some .sigint)) {}).result = .ok 130 ∧
      ¬ NothingLost (pipeline onePod (interruptedRun (some .sigint)) {}).state := by
  unfold NothingLost Applied Deleted
  decide

/-!
## Exit code 0
-/

/-- Files of one path have the same bytes. -/
def Agree (files : List (List (String × List UInt8))) : Prop :=
  forall path data data', (path, data) ∈ files.flatten -> (path, data') ∈ files.flatten ->
    data = data'

theorem addFile_eq_ok {found found' : List (String × List UInt8)} {f : String × List UInt8}
    (h : addFile found f = .ok found') :
    found' = f :: found ∧ forall data, found.lookup f.1 = some data -> data = f.2 := by
  unfold addFile at h
  split at h
  · rename_i data hlookup
    split_ifs at h with heq
    injection h with h
    refine ⟨h.symm, ?_⟩
    intro data' hlookup'
    rw [hlookup] at hlookup'
    injection hlookup' with hdata
    rw [← hdata, heq]
  · rename_i hlookup
    injection h with h
    refine ⟨h.symm, ?_⟩
    intro data' hlookup'
    rw [hlookup] at hlookup'
    cases hlookup'

/-- What was found stays, and every file that is added is found. -/
theorem foldlM_addFile {fs found found' : List (String × List UInt8)}
    (h : fs.foldlM addFile found = .ok found') :
    (forall path data, found.lookup path = some data -> found'.lookup path = some data) ∧
      forall path data, (path, data) ∈ fs -> found'.lookup path = some data := by
  induction fs generalizing found with
  | nil =>
      injection h with h
      rw [h]
      exact ⟨fun _ _ hlookup => hlookup, fun _ _ hf => by cases hf⟩
  | cons f fs ih =>
      obtain ⟨path0, data0⟩ := f
      rw [List.foldlM_cons, Fallible.bind_eq_ok] at h
      rcases h with ⟨found1, hadd, hrest⟩
      rcases addFile_eq_ok hadd with ⟨rfl, hsame⟩
      rcases ih hrest with ⟨hkeep, hall⟩
      constructor
      · intro path data hlookup
        refine hkeep path data ?_
        rw [List.lookup_cons]
        by_cases hpath : path = path0
        · rw [hpath] at hlookup ⊢
          simp [hsame data hlookup]
        · rw [beq_false_of_ne hpath]
          exact hlookup
      · intro path data hmem
        rcases List.mem_cons.mp hmem with heq | hmem
        · injection heq with hpath hdata
          rw [hpath, hdata]
          exact hkeep path0 data0 (by simp)
        · exact hall path data hmem

/-- Results that were merged have no conflict. -/
theorem mergeBenchResults_agree {files : List (List (String × List UInt8))}
    {found : List (String × List UInt8)} (h : mergeBenchResults files = .ok found) :
    Agree files := by
  intro path data data' hdata hdata'
  have hleft := (foldlM_addFile h).2 path data hdata
  have hright := (foldlM_addFile h).2 path data' hdata'
  rw [hleft] at hright
  exact Option.some.inj hright

/-- The body ran to its end: the verdict is that of the ranks, and the results were merged. -/
structure Finished [JsonText.FloatText F] (env : Env F) (w : World F) : Prop where
  created : w.created = true
  verdict : w.verdict = some (Guards.combine env.python w.ranks)
  infra : w.infra = (Guards.combine env.python w.ranks).infra
  merged : exists files, w.merged = some files ∧ Agree files

/-- A flag tells of an exception, or the body ran to its end. -/
def Settled [JsonText.FloatText F] (env : Env F) (w : World F) : Prop :=
  (w.interrupted = true ∨ w.usage = true ∨ w.infra = true) ∨ Finished env w

/-- After the delete, nothing of the run was left. -/
def Gone (w : World F) : Prop :=
  exists before after, w.log = before ++ after ∧ .deleteEnded ∈ before ∧ .statusEmpty ∈ after

theorem gone_tick {w : World F} {events : List Event} (h : Gone w) : Gone (w.tick events) := by
  rcases h with ⟨before, after, hlog, hdelete, hempty⟩
  refine ⟨before, after ++ events, ?_, hdelete, List.mem_append_left events hempty⟩
  unfold World.tick
  rw [hlog, List.append_assoc]

/-- Before the teardown: every interrupt was noted. -/
structure Before (w : World F) : Prop where
  wait : w.waitInterrupted = false
  teardown : .teardown ∉ w.log

theorem before_tick {w : World F} {events : List Event} (h : Before w)
    (hevents : .teardown ∉ events) : Before (w.tick events) := by
  refine ⟨h.wait, ?_⟩
  unfold World.tick
  rw [List.mem_append]
  rintro (hmem | hmem)
  · exact h.teardown hmem
  · exact hevents hmem

/-- In the body nothing was raised yet. -/
structure Working (w : World F) : Prop extends Before w where
  interrupt : .interrupt ∉ w.log

theorem stable_working : Stable (Working (F := F)) := by
  intro w hw
  refine ⟨⟨before_tick hw.toBefore (by simp), by simpa [World.tick] using hw.interrupt⟩, ?_⟩
  intro c
  exact ⟨before_tick hw.toBefore (by simp), by simpa [World.tick] using hw.interrupt⟩

/-- What the body leaves when it raises: an interrupt is told by the exception. -/
def Broken (e : Raised) (w : World F) : Prop :=
  Before w ∧ (.interrupt ∈ w.log -> e = .keyboardInterrupt)

/-- A property of the variables of a run, which no event changes. -/
def Silent (X : World F -> Prop) : Prop := forall w events, X w -> X (w.tick events)

section

variable {env : Env F} {c : Call} {X : World F -> Prop}

theorem working_point (hX : Silent X) :
    (point env c).Holds (fun w => Working w ∧ X w) anywhere (fun _ w => Working w ∧ X w)
      Broken := by
  refine holds_point ?_ ?_
  · intro w hw _
    exact ⟨(stable_working w hw.1).1, hX w _ hw.2⟩
  · intro w hw _
    exact ⟨before_tick hw.1.toBefore (by simp), fun _ => rfl⟩

theorem working_call (hX : Silent X) :
    (call env c).Holds (fun w => Working w ∧ X w) anywhere (fun _ w => Working w ∧ X w)
      Broken := by
  refine holds_call ?_ ?_
  · intro w hw
    exact ⟨(stable_working w hw.1).2 c, hX w _ hw.2⟩
  · intro w e hw _
    by_cases he : e = .keyboardInterrupt
    · rw [trace, if_pos he]
      exact ⟨before_tick hw.1.toBefore (by simp), fun _ => he⟩
    · rw [trace, if_neg he]
      have hcalled := (stable_working w hw.1).2 c
      exact ⟨hcalled.toBefore, fun h => absurd h hcalled.interrupt⟩

theorem working_perform (hX : Silent X) :
    (perform env c).Holds (fun w => Working w ∧ X w) anywhere (fun _ w => Working w ∧ X w)
      Broken :=
  Effect.Holds.bind (working_point hX) fun _ => working_call hX

theorem working_set {Y : World F -> Prop} {f : World F -> World F}
    (hwork : forall w, Working w -> Working (f w)) (hXY : forall w, X w -> Y (f w)) :
    (set f).Holds (fun w => Working w ∧ X w) anywhere (fun _ w => Working w ∧ Y w) Broken :=
  holds_set fun w hw => ⟨hwork w hw.1, hXY w hw.2⟩

end

/-- The start ends with a Job that is marked. -/
theorem start_works (spec : Spec) (env : Env F) :
    (start spec env).Holds (fun w => Working w ∧ anywhere w) anywhere
      (fun _ w => Working w ∧ w.created = true) Broken := by
  have htrue : Silent (anywhere (F := F)) := fun _ _ _ => True.intro
  have hcreated : Silent fun w : World F => w.created = true := fun _ _ hw => hw
  refine Effect.Holds.bind (Q := fun _ w => Working w ∧ anywhere w) ?_ fun _ => ?_
  · refine holds_when ?_
    refine Effect.Holds.bind (working_perform htrue) fun _ => ?_
    exact holds_now_bind fun n => holds_when (working_perform htrue)
  refine Effect.Holds.bind (working_perform htrue) fun _ => ?_
  refine Effect.Holds.bind (working_point htrue) fun _ => ?_
  refine Effect.Holds.bind (working_set (Y := fun w => w.created = true) ?_ ?_) fun _ => ?_
  · intro w hw
    exact ⟨⟨hw.wait, hw.teardown⟩, hw.interrupt⟩
  · intro w _
    rfl
  refine Effect.Holds.bind (working_perform hcreated) fun _ => ?_
  refine Effect.Holds.bind (working_perform hcreated) fun _ => ?_
  refine Effect.Holds.bind (Q := fun _ w => Working w ∧ w.created = true) ?_ fun _ => ?_
  · refine Effect.Holds.bind (holds_when (working_perform hcreated)) fun _ => ?_
    refine holds_when ?_
    refine Effect.Holds.bind (working_perform hcreated) fun _ => ?_
    refine Effect.Holds.bind (working_perform hcreated) fun _ => ?_
    exact holds_now_bind fun n => holds_when (working_perform hcreated)
  exact Effect.Holds.bind (working_perform hcreated) fun _ => working_perform hcreated

/-- The body ends with the verdict of its ranks, or raises. -/
theorem work_finishes [JsonText.FloatText F] (spec : Spec) (env : Env F) :
    (work spec env).Holds Working anywhere (fun _ w => Working w ∧ Finished env w) Broken := by
  have hcreated : Silent fun w : World F => w.created = true := fun _ _ hw => hw
  have hkeep : forall w w' : World F, Working w -> w'.log = w.log ->
      w'.waitInterrupted = w.waitInterrupted -> Working w' := by
    intro w w' hw hlog hwait
    exact ⟨⟨hwait.trans hw.wait, hlog ▸ hw.teardown⟩, hlog ▸ hw.interrupt⟩
  refine Effect.Holds.bind ((start_works spec env).weaken (fun _ hw => ⟨hw, True.intro⟩)
    (fun _ hw => hw) (fun _ _ hw => hw) (fun _ _ hw => hw)) fun _ => ?_
  refine Effect.Holds.bind (working_perform hcreated) fun _ => ?_
  refine Effect.Holds.bind (working_perform hcreated) fun _ => ?_
  refine Effect.Holds.bind (Q := fun _ w => Working w ∧ w.created = true) ?_ fun n => ?_
  · refine Effect.Holds.bind (working_point hcreated) fun _ => holds_now_bind fun n => ?_
    refine Effect.Holds.bind (holds_when (working_set ?_ ?_)) fun _ => ?_
    · intro w hw
      exact hkeep w _ hw rfl rfl
    · intro w hw
      exact hw
    · exact Effect.Holds.bind (working_call hcreated) fun _ => Effect.holds_pure fun _ hw => hw
  have hrank : forall i, (judgeRank spec env i).Holds (fun w => Working w ∧ w.created = true)
      anywhere (fun _ w => Working w ∧ w.created = true) Broken := by
    intro i
    refine Effect.Holds.bind (working_perform hcreated) fun _ => ?_
    refine Effect.Holds.bind (working_perform hcreated) fun _ => ?_
    refine Effect.Holds.bind (working_perform hcreated) fun _ => ?_
    refine Effect.Holds.bind (working_point hcreated) fun _ => holds_now_bind fun n => ?_
    refine Effect.Holds.bind (working_call hcreated) fun _ => ?_
    exact working_set (fun w hw => hkeep w _ hw rfl rfl) (fun _ hw => hw)
  refine Effect.Holds.bind (Effect.holds_each
    (J := fun _ (w : World F) => Working w ∧ w.created = true) (List.range n)
    (fun _ i _ => hrank i) []) fun _ => ?_
  refine Effect.Holds.bind (working_set (Y := fun w => w.created = true ∧
    w.verdict = some (Guards.combine env.python w.ranks) ∧
    w.infra = (Guards.combine env.python w.ranks).infra) ?_ ?_) fun _ => ?_
  · intro w hw
    exact hkeep w _ hw rfl rfl
  · intro w hw
    exact ⟨hw, rfl, rfl⟩
  refine Effect.Holds.bind (working_point fun _ _ hw => hw) fun _ => holds_now_bind fun n => ?_
  refine Effect.holds_ofExcept_bind ?_ fun found hfound => ?_
  · intro e w _ hw
    exact ⟨hw.1.toBefore, fun h => absurd h hw.1.interrupt⟩
  refine Effect.Holds.bind (working_call fun _ _ hw => hw) fun _ => ?_
  refine working_set ?_ ?_
  · intro w hw
    exact hkeep w _ hw rfl rfl
  · rintro w ⟨hmarked, hverdict, hinfra⟩
    exact ⟨hmarked, hverdict, hinfra, _, rfl, mergeBenchResults_agree hfound⟩

/-- The body is over: its end is told by the flags, and so is an interrupt. -/
structure Over [JsonText.FloatText F] (env : Env F) (w : World F) : Prop extends Before w where
  settled : Settled env w
  interrupt : .interrupt ∈ w.log -> w.interrupted = true

section

variable [JsonText.FloatText F] {env : Env F}

theorem settled_tick {w : World F} {events : List Event} (h : Settled env w) :
    Settled env (w.tick events) := by
  rcases h with h | h
  · exact Or.inl h
  · exact Or.inr ⟨h.created, h.verdict, h.infra, h.merged⟩

/-- An exception that was reported is told by a flag. -/
theorem onRaised_over (e : Raised) :
    (onRaised env e).Holds (Broken e) anywhere (fun _ => Over env) (fun _ => anywhere) := by
  have hflag : forall w w' : World F, Broken e w -> e ≠ .keyboardInterrupt -> w'.log = w.log ->
      w'.waitInterrupted = w.waitInterrupted -> (w'.usage = true ∨ w'.infra = true) ->
      Over env w' := by
    intro w w' hw he hlog hwait hset
    refine ⟨⟨hwait.trans hw.1.wait, hlog ▸ hw.1.teardown⟩, Or.inl (Or.inr hset), ?_⟩
    intro hinterrupt
    rw [hlog] at hinterrupt
    exact absurd (hw.2 hinterrupt) he
  have hreport : forall P : World F -> Prop, Stable P -> forall c,
      (perform env c).Holds P anywhere (fun _ => P) (fun _ => anywhere) := by
    intro P hP c
    exact holds_perform hP (fun _ _ => ⟨True.intro, True.intro⟩) (fun _ _ _ _ => True.intro)
  cases e with
  | keyboardInterrupt =>
      refine Effect.Holds.bind (holds_set (Q := Over env) ?_) fun _ => hreport (Over env) ?_ _
      · intro w hw
        exact ⟨⟨hw.1.wait, hw.1.teardown⟩, Or.inl (Or.inl rfl), fun _ => rfl⟩
      · intro w hw
        refine ⟨⟨before_tick hw.toBefore (by simp), settled_tick hw.settled, ?_⟩, fun c =>
          ⟨before_tick hw.toBefore (by simp), settled_tick hw.settled, ?_⟩⟩
        · intro hmem
          exact hw.interrupt (by simpa [World.tick] using hmem)
        · intro hmem
          exact hw.interrupt (by simpa [World.tick] using hmem)
  | lostConnection =>
      exact holds_set fun w hw => hflag w _ hw (by simp) rfl rfl (Or.inr rfl)
  | infraError => exact holds_set fun w hw => hflag w _ hw (by simp) rfl rfl (Or.inr rfl)
  | usageError => exact holds_set fun w hw => hflag w _ hw (by simp) rfl rfl (Or.inl rfl)
  | other name =>
      refine Effect.Holds.bind (hreport (Broken (.other name)) ?_ _) fun _ => ?_
      · intro w hw
        refine ⟨⟨before_tick hw.1 (by simp), ?_⟩, fun c => ⟨before_tick hw.1 (by simp), ?_⟩⟩
        · intro hmem
          exact hw.2 (by simpa [World.tick] using hmem)
        · intro hmem
          exact hw.2 (by simpa [World.tick] using hmem)
      · exact holds_set fun w hw => hflag w _ hw (by simp) rfl rfl (Or.inr rfl)

/-- In the teardown, which was entered once. -/
structure Entered (env : Env F) (w : World F) : Prop where
  settled : Settled env w
  once : w.log.count .teardown = 1

/-- In the teardown, with every interrupt noted. -/
structure Calm (env : Env F) (w : World F) : Prop extends Entered env w where
  interrupt : .interrupt ∈ w.log -> w.interrupted = true ∨ w.waitInterrupted = true

/-- What the teardown leaves when it raises. -/
def Torn (env : Env F) (e : Raised) (w : World F) : Prop :=
  Entered env w ∧ (e ≠ .keyboardInterrupt -> Calm env w)

theorem entered_tick {w : World F} {events : List Event} (h : Entered env w)
    (hevents : .teardown ∉ events) : Entered env (w.tick events) := by
  refine ⟨settled_tick h.settled, ?_⟩
  unfold World.tick
  rw [List.count_append, h.once, List.count_eq_zero.mpr hevents]

theorem calm_tick {w : World F} {events : List Event} (h : Calm env w)
    (hevents : .teardown ∉ events) (hinterrupt : .interrupt ∉ events) :
    Calm env (w.tick events) := by
  refine ⟨entered_tick h.toEntered hevents, ?_⟩
  intro hmem
  refine h.interrupt ?_
  simpa [World.tick, hinterrupt] using hmem

theorem calm_point {c : Call} :
    (point env c).Holds (Calm env) anywhere (fun _ => Calm env) (Torn env) := by
  refine holds_point ?_ ?_
  · intro w hw _
    exact calm_tick hw (by simp) (by simp)
  · intro w hw _
    exact ⟨entered_tick hw.toEntered (by simp), fun h => absurd rfl h⟩

theorem calm_perform {c : Call} :
    (perform env c).Holds (Calm env) anywhere (fun _ => Calm env) (Torn env) := by
  refine holds_perform ?_ ?_ ?_
  · intro w hw
    exact ⟨calm_tick hw (by simp) (by simp), fun c => calm_tick hw (by simp) (by simp)⟩
  · intro w hw
    exact ⟨⟨entered_tick hw.toEntered (by simp), fun h => absurd rfl h⟩,
      ⟨entered_tick hw.toEntered (by simp), fun h => absurd rfl h⟩⟩
  · intro w e hw _
    exact ⟨hw.toEntered, fun _ => hw⟩

theorem calm_keptLoop (ticks : Nat) :
    (keptLoop env ticks).Holds (Calm env) anywhere (fun _ => Calm env) (Torn env) := by
  induction ticks with
  | zero => exact Effect.holds_pure fun _ hw => hw
  | succ ticks ih =>
      have hstatus : Effect.Holds (do
          perform env .keptStatus
          pure false : Step F Bool) (Calm env) anywhere (fun _ => Calm env) (Torn env) :=
        Effect.Holds.bind calm_perform fun _ => Effect.holds_pure fun _ hw => hw
      rw [keptLoop]
      refine Effect.Holds.bind (hstatus.handle (T := Torn env) ?_) fun lost => ?_
      · intro e
        split
        · exact Effect.holds_pure fun _ hw => hw.2 (by simp)
        · exact Effect.holds_throw fun _ hw => hw
      · refine holds_now_bind fun n => ?_
        split_ifs
        · exact Effect.Holds.bind calm_perform fun _ => ih
        · exact Effect.holds_pure fun _ hw => hw

/-- An interrupt of the wait is noted. -/
theorem calm_waitKept :
    (waitKept env).Holds (Calm env) anywhere (fun _ => Calm env) (Torn env) := by
  refine (calm_keptLoop env.keptTicks).handle ?_
  intro e
  split
  · refine holds_set ?_
    intro w hw
    refine ⟨⟨?_, hw.1.once⟩, fun _ => Or.inr rfl⟩
    rcases hw.1.settled with h | h
    · exact Or.inl h
    · exact Or.inr ⟨h.created, h.verdict, h.infra, h.merged⟩
  · exact Effect.holds_throw fun _ hw => hw

theorem settled_ignored {w : World F} {b : Bool} (h : Settled env w) :
    Settled env { w with sigintIgnored := b } := by
  rcases h with h | h
  · exact Or.inl h
  · exact Or.inr ⟨h.created, h.verdict, h.infra, h.merged⟩

theorem calm_ignored {w : World F} {b : Bool} (h : Calm env w) :
    Calm env { w with sigintIgnored := b } :=
  ⟨⟨settled_ignored h.settled, h.once⟩, h.interrupt⟩

/-- A delete that returns has ended. -/
theorem calm_delete :
    (delete env).Holds (Calm env) anywhere (fun _ w => Calm env w ∧ Deleted w) (Torn env) := by
  have hkubectl : (kubectlDelete env).Holds (Calm env) anywhere
      (fun _ w => Calm env w ∧ Deleted w) (Torn env) := by
    intro w hw
    refine ⟨fun _ _ => True.intro, ?_⟩
    have hended := @calm_tick F _ env w [.called .delete, .deleteEnded] hw (by simp) (by simp)
    unfold kubectlDelete
    cases env.deletion w.clock with
    | completed => exact ⟨hended, by simp [Deleted, World.tick]⟩
    | refused lost usage => exact ⟨hended.toEntered, fun _ => hended⟩
    | raised e =>
        refine ⟨entered_tick hw.toEntered ?_, fun he => calm_tick hw ?_ ?_⟩
        · unfold trace
          split_ifs <;> simp
        · unfold trace
          split_ifs <;> simp
        · rw [trace, if_neg he]
          simp
  refine Effect.Holds.bind calm_point fun _ => ?_
  refine Effect.Holds.bind (holds_set (Q := Calm env) fun _ hw => calm_ignored hw) fun _ => ?_
  refine Effect.Holds.ensure (Effect.Holds.bind calm_point fun _ => hkubectl) ?_ ?_
  · rintro _ w ⟨hw, hdeleted⟩
    exact ⟨True.intro, calm_ignored hw, hdeleted⟩
  · rintro e w ⟨hentered, hcalm⟩
    exact ⟨True.intro, ⟨settled_ignored hentered.settled, hentered.once⟩,
      fun he => calm_ignored (hcalm he)⟩

theorem calm_deleted_perform {c : Call} :
    (perform env c).Holds (fun w => Calm env w ∧ Deleted w) anywhere
      (fun _ w => Calm env w ∧ Deleted w) (Torn env) :=
  (calm_perform.and deleted_perform).weaken (fun _ hw => hw) (fun _ _ => True.intro)
    (fun _ _ hw => hw) (fun _ _ hw => hw.1)

/-- What is verified was seen after the delete. -/
theorem calm_statusLoop (ticks : Nat) :
    (statusLoop env ticks).Holds (fun w => Calm env w ∧ Deleted w) anywhere
      (fun b w => Calm env w ∧ (b = true -> Gone w)) (Torn env) := by
  have hobserve : (observe env).Holds (fun w => Calm env w ∧ Deleted w) anywhere
      (fun b w => (Calm env w ∧ Deleted w) ∧ (b = true -> Gone w)) (Torn env) := by
    refine Effect.Holds.bind calm_deleted_perform fun _ => holds_now_bind fun n => ?_
    cases env.statusEmpty n with
    | true =>
        refine Effect.Holds.bind (holds_set
          (Q := fun w => (Calm env w ∧ Deleted w) ∧ Gone w) ?_) fun _ => ?_
        · rintro w ⟨hcalm, hdeleted⟩
          exact ⟨⟨calm_tick hcalm (by simp) (by simp), deleted_tick hdeleted⟩,
            w.log, [.statusEmpty], rfl, hdeleted, List.mem_cons_self⟩
        · exact Effect.holds_pure fun _ hw => ⟨hw.1, fun _ => hw.2⟩
    | false =>
        exact Effect.holds_pure fun _ hw => ⟨hw, fun h => by cases h⟩
  induction ticks with
  | zero =>
      exact hobserve.weaken (fun _ hw => hw) (fun _ hw => hw) (fun _ _ hw => ⟨hw.1.1, hw.2⟩)
        (fun _ _ hw => hw)
  | succ ticks ih =>
      refine Effect.Holds.bind hobserve fun empty => ?_
      cases empty with
      | true => exact Effect.holds_pure fun _ hw => ⟨hw.1.1, hw.2⟩
      | false =>
          refine Effect.Holds.bind (calm_deleted_perform.weaken (fun _ hw => hw.1)
            (fun _ hw => hw) (fun _ _ hw => hw) (fun _ _ hw => hw)) fun _ => ih

/-- The teardown is entered once; what it verifies is gone, or was never made. -/
theorem calm_teardown :
    (teardown env).Holds (Over env) anywhere
      (fun b w => Calm env w ∧ (b = true -> w.created = true -> Gone w)) (Torn env) := by
  refine Effect.Holds.bind (holds_set (Q := Calm env) ?_) fun _ => ?_
  · intro w hw
    refine ⟨⟨settled_tick hw.settled, ?_⟩, ?_⟩
    · unfold World.tick
      rw [List.count_append, List.count_eq_zero.mpr hw.teardown]
      rfl
    · intro hmem
      exact Or.inl (hw.interrupt (by simpa [World.tick] using hmem))
  refine Effect.Holds.bind calm_point fun _ => holds_read_bind fun created => ?_
  cases created with
  | false =>
      refine Effect.holds_pure ?_
      rintro w ⟨hw, hcreated⟩
      refine ⟨hw, ?_⟩
      intro _ htrue
      rw [hcreated] at htrue
      cases htrue
  | true =>
      have hbody : Effect.Holds (do
          let kept ← read World.kept
          when kept (waitKept env)
          delete env
          point env .leaveDelete
          statusLoop env env.teardownTicks : Step F Bool) (Calm env) anywhere
          (fun b w => Calm env w ∧ (b = true -> w.created = true -> Gone w)) (Torn env) := by
        refine holds_read_bind fun kept => ?_
        refine Effect.Holds.bind ((holds_when calm_waitKept).weaken (fun _ hw => hw.1)
          (fun _ hw => hw) (fun _ _ hw => hw) (fun _ _ hw => hw)) fun _ => ?_
        refine Effect.Holds.bind calm_delete fun _ => ?_
        refine Effect.Holds.bind (Q := fun _ w => Calm env w ∧ Deleted w) ?_ fun _ => ?_
        · refine holds_point ?_ ?_
          · intro w hw _
            exact ⟨calm_tick hw.1 (by simp) (by simp), deleted_tick hw.2⟩
          · intro w hw _
            exact ⟨entered_tick hw.1.toEntered (by simp), fun h => absurd rfl h⟩
        · exact (calm_statusLoop _).weaken (fun _ hw => hw) (fun _ hw => hw)
            (fun _ _ hw => ⟨hw.1, fun hb _ => hw.2 hb⟩) (fun _ _ hw => hw)
      refine Effect.Holds.handle (hbody.weaken (fun _ hw => hw.1) (fun _ hw => hw)
        (fun _ _ hw => hw) (fun _ _ hw => hw)) ?_
      intro e
      have hcaught : e ≠ .keyboardInterrupt -> (pure false : Step F Bool).Holds (Torn env e)
          anywhere (fun b w => Calm env w ∧ (b = true -> w.created = true -> Gone w))
          (Torn env) := by
        intro he
        refine Effect.holds_pure ?_
        intro w hw
        exact ⟨hw.2 he, fun h => by cases h⟩
      split
      · exact hcaught (by simp)
      · exact hcaught (by simp)
      · exact hcaught (by simp)
      · exact Effect.holds_throw fun _ hw => hw

/-- What is known when a run comes to its exit code. -/
structure Ended (env : Env F) (w : World F) : Prop extends Entered env w where
  interrupt : .interrupt ∈ w.log -> w.interrupted = true
  verified : w.verified = true -> w.created = true -> Gone w

theorem settled_flags {w w' : World F} (h : Settled env w) (hinterrupted : w.interrupted = true ->
      w'.interrupted = true) (husage : w'.usage = w.usage) (hinfra : w'.infra = w.infra)
    (hcreated : w'.created = w.created) (hranks : w'.ranks = w.ranks)
    (hverdict : w'.verdict = w.verdict) (hmerged : w'.merged = w.merged) : Settled env w' := by
  rcases h with (h | h | h) | h
  · exact Or.inl (Or.inl (hinterrupted h))
  · exact Or.inl (Or.inr (Or.inl (husage.trans h)))
  · exact Or.inl (Or.inr (Or.inr (hinfra.trans h)))
  · refine Or.inr ⟨hcreated.trans h.created, ?_, ?_, ?_⟩
    · rw [hverdict, hranks]
      exact h.verdict
    · rw [hinfra, hranks]
      exact h.infra
    · rw [hmerged]
      exact h.merged

theorem tearDown_ends :
    (tearDown env).Holds (Over env) anywhere (fun _ => Ended env) (fun _ => anywhere) := by
  refine Effect.Holds.bind (Q := fun _ w => Calm env w ∧
    (w.verified = true -> w.created = true -> Gone w)) ?_ fun _ => ?_
  · refine Effect.Holds.handle (R := Torn env) ?_ ?_
    · refine Effect.Holds.bind calm_teardown fun b => ?_
      refine holds_set ?_
      rintro w ⟨hw, hgone⟩
      exact ⟨⟨⟨settled_flags hw.settled (fun h => h) rfl rfl rfl rfl rfl rfl, hw.once⟩,
        hw.interrupt⟩, hgone⟩
    · intro e
      split
      · refine holds_set ?_
        rintro w ⟨hw, _⟩
        refine ⟨⟨⟨settled_flags hw.settled (fun _ => rfl) rfl rfl rfl rfl rfl rfl, hw.once⟩,
          fun _ => Or.inl rfl⟩, ?_⟩
        intro h
        cases h
      · exact Effect.holds_throw fun _ _ => True.intro
  · refine holds_set ?_
    rintro w ⟨hw, hgone⟩
    refine ⟨⟨settled_flags hw.settled ?_ rfl rfl rfl rfl rfl rfl, hw.once⟩, ?_, hgone⟩
    · intro h
      simp [h]
    · intro hmem
      simpa using hw.interrupt hmem

theorem finalExit_zero {testCode : Nat} {infra verified interrupted usage : Bool}
    (h : finalExit testCode infra verified interrupted usage = 0) :
    interrupted = false ∧ usage = false ∧ infra = false ∧ testCode = 0 ∧ verified = true := by
  unfold finalExit at h
  split_ifs at h
  simp_all

/-- A run that ends with code 0 was not disturbed, passed and left nothing behind. -/
theorem Ended.zero {w : World F} (h : Ended env w) (hcode : exitCode w = 0) :
    (forall e, e ∈ w.ranks -> e.2.passed = true) ∧
      (exists files, w.merged = some files ∧ Agree files) ∧ .interrupt ∉ w.log ∧ Gone w := by
  rcases finalExit_zero hcode with ⟨hinterrupted, husage, hinfra, htest, hverified⟩
  have hfinished : Finished env w := by
    rcases h.settled with (hflag | hflag | hflag) | hfinished
    · rw [hinterrupted] at hflag
      cases hflag
    · rw [husage] at hflag
      cases hflag
    · rw [hinfra] at hflag
      cases hflag
    · exact hfinished
  refine ⟨?_, hfinished.merged, ?_, h.verified hverified hfinished.created⟩
  · refine (Guards.combine_passed env.python w.ranks).mp ?_
    rw [hfinished.verdict] at htest
    rw [Guards.passed_iff]
    exact ⟨htest, hfinished.infra ▸ hinfra⟩
  · intro hmem
    rw [h.interrupt hmem] at hinterrupted
    cases hinterrupted

theorem ended_finish {code : Nat} :
    (perform env .finish).Holds (fun w => Ended env w ∧ exitCode w = code) anywhere
      (fun _ w => Ended env w ∧ exitCode w = code) (fun _ => anywhere) := by
  have htick : forall (w : World F) (events : List Event), .teardown ∉ events ->
      .interrupt ∉ events -> Ended env w ∧ exitCode w = code ->
      Ended env (w.tick events) ∧ exitCode (w.tick events) = code := by
    rintro w events hteardown hinterrupt ⟨hw, hcode⟩
    refine ⟨⟨entered_tick hw.toEntered hteardown, ?_, ?_⟩, hcode⟩
    · intro hmem
      exact hw.interrupt (by simpa [World.tick, hinterrupt] using hmem)
    · intro hverified hcreated
      exact gone_tick (hw.verified hverified hcreated)
  refine holds_perform ?_ (fun _ _ => ⟨True.intro, True.intro⟩) (fun _ _ _ _ => True.intro)
  intro w hw
  exact ⟨htick w _ (by simp) (by simp) hw, fun c => htick w _ (by simp) (by simp) hw⟩

theorem pipeline_ends (spec : Spec) :
    (pipeline spec env).Holds (· = {}) anywhere
      (fun code w => Ended env w ∧ exitCode w = code) (fun _ => anywhere) := by
  have hgc : (perform env .gc).Holds (· = {}) anywhere (fun _ => Working) (fun _ => anywhere) := by
    have hinit : Working ({} : World F) := ⟨⟨rfl, by simp⟩, by simp⟩
    exact (holds_perform stable_working (fun _ _ => ⟨True.intro, True.intro⟩)
      (fun _ _ _ _ => True.intro)).weaken (fun _ hw => hw ▸ hinit) (fun _ hw => hw)
      (fun _ _ hw => hw) (fun _ _ hw => hw)
  have hbody : ((work spec env).handle (onRaised env)).Holds Working anywhere
      (fun _ => Over env) (fun _ => anywhere) := by
    refine Effect.Holds.handle ((work_finishes spec env).weaken (fun _ hw => hw) (fun _ hw => hw)
      ?_ (fun _ _ hw => hw)) onRaised_over
    rintro _ w ⟨hw, hfinished⟩
    exact ⟨hw.toBefore, Or.inr hfinished, fun h => absurd h hw.interrupt⟩
  have hany : (tearDown env).Holds anywhere anywhere (fun _ => anywhere) (fun _ => anywhere) := by
    intro w _
    refine ⟨fun _ _ => True.intro, ?_⟩
    cases (tearDown env w).result with
    | ok u => exact True.intro
    | error e => exact True.intro
  refine Effect.Holds.bind hgc fun _ => ?_
  refine Effect.Holds.bind (hbody.finallyDo (fun _ => tearDown_ends) (fun _ => hany)) fun _ => ?_
  refine holds_read_bind fun code => ?_
  refine Effect.Holds.bind ended_finish fun _ => ?_
  exact Effect.holds_pure fun _ hw => hw

end

/-- A run that returns has torn down once.  One that returns 0 has a pass of every rank, has
merged its results, was not interrupted, and saw nothing left after the delete. -/
theorem pipeline_exit [JsonText.FloatText F] (spec : Spec) (env : Env F) :
    (forall code, (pipeline spec env {}).result = .ok code ->
      (pipeline spec env {}).state.log.count .teardown = 1) ∧
    ((pipeline spec env {}).result = .ok 0 ->
      (forall e, e ∈ (pipeline spec env {}).state.ranks -> e.2.passed = true) ∧
      (exists files, (pipeline spec env {}).state.merged = some files ∧ Agree files) ∧
      .interrupt ∉ (pipeline spec env {}).state.log ∧ Gone (pipeline spec env {}).state) := by
  have hend := (@pipeline_ends F _ env spec {} rfl).2
  constructor
  · intro code hresult
    rw [hresult] at hend
    exact hend.1.once
  · intro hresult
    rw [hresult] at hend
    exact hend.1.zero hend.2

/-- A run of two pods in which nothing is raised, and whose ranks agree on what both wrote. -/
def calmRun : Env JsonText.Half :=
  { interruptedRun none with
    raises := fun _ _ => none
    ranks := fun _ => 2
    benchFiles := fun _ => [[("put.jsonl", [1, 2]), ("put.log", [3])], [("put.jsonl", [1, 2])]] }

def twoPods : Spec := ⟨false, false, 2, 0⟩

/-- The run returns 0, both ranks passed, their files were merged, and the Job was found gone. -/
theorem pipeline_exit_calm :
    (pipeline twoPods calmRun {}).result = .ok 0 ∧
      (pipeline twoPods calmRun {}).state.log.count .teardown = 1 ∧
      (forall e, e ∈ (pipeline twoPods calmRun {}).state.ranks -> e.2.passed = true) ∧
      (exists files, (pipeline twoPods calmRun {}).state.merged = some files ∧ Agree files) ∧
      .interrupt ∉ (pipeline twoPods calmRun {}).state.log ∧
      Gone (pipeline twoPods calmRun {}).state := by
  have hresult : (pipeline twoPods calmRun {}).result = .ok 0 := by decide
  have hexit := pipeline_exit twoPods calmRun
  exact ⟨hresult, hexit.1 0 hresult, hexit.2 hresult⟩

end Remote
end Dev
end Ostia

import Ostia.Capture.Prepare
import Ostia.Foundation.Fallible

/-!
# The contract of a capture

What the exit code of a capture says about its output directory, for every way in which the
steps of a run can fail and for every sequence of runs into one directory.
-/

namespace Ostia
namespace Capture

open Foundation

/-- What a failed capture leaves: no data file, and no manifest but one of a failure. -/
structure FailedDirectory (printer : Printer) (out : Out) : Prop where
  data : forall name, name ∈ kDataFiles -> out.file? name = none
  manifest : out.entry "manifest.json" = none ∨ exists m : Manifest,
    out.file? "manifest.json" = some (manifestText printer m) ∧ m.status = .failed ∧
      m.files = OrdMap.empty ∧ m.topologyId = none

/-- What a capture leaves that did not fail: its manifest lists the data files that are there. -/
def CompleteDirectory (printer : Printer) (sha256Hex : Bytes -> String) (out : Out) : Prop :=
  exists m : Manifest, out.file? "manifest.json" = some (manifestText printer m) ∧
    m.sanitized = true ∧ m.leakCheck = .passed ∧ m.topologyId.isSome = true ∧
    forall name, m.files.find? name =
      if name ∈ kDataFiles then (out.file? name).map (fileHash sha256Hex) else none

/-- The state of a run after its staging. -/
def stagedState (sha256Hex : Bytes -> String) (env : Env) (s : Run) : Run :=
  (Effect.handle (withScratch env (stageAndCheck sha256Hex env)) failWith s).state

section Ends

variable {base : Out} {mark : List Path} {n code : Nat} {s b : Run} {printer : Printer}
  {sha256Hex : Bytes -> String} {env : Env}

theorem exitFor_failure (leakOrSchema isPartial : Bool) :
    exitFor leakOrSchema true isPartial = 1 ∨ exitFor leakOrSchema true isPartial = 3 := by
  cases leakOrSchema
  · exact Or.inl rfl
  · exact Or.inr rfl

theorem file?_eq_of_entry {out : Out} {name : String} {bytes : Bytes}
    (h : out.entry name = some ⟨.file bytes, false⟩) : out.file? name = some bytes := by
  unfold Out.file?
  rw [h]

theorem file?_of_clear {out : Out} {name : String} (hclear : base.Clear name)
    (h : out.entry name = base.entry name) : out.file? name = none := by
  unfold Out.file?
  rw [h]
  rcases hclear with hnone | htree
  · rw [hnone]
  · rw [htree]

theorem failedDirectory_of_shows (hbase : Ready base)
    (hdata : forall name, name ∈ kDataFiles -> b.out.entry name = base.entry name)
    {m : Manifest} (hform : s.manifest = m.failedForm) (hshows : Shows printer s b) :
    FailedDirectory printer b.out := by
  refine ⟨?_, Or.inr ⟨s.manifest, file?_eq_of_entry hshows, ?_, ?_, ?_⟩⟩
  · intro name hname
    exact file?_of_clear (hbase.clear_data hname) (hdata name hname)
  · rw [hform]
    rfl
  · rw [hform]
    rfl
  · rw [hform]
    rfl

/-- A run that ends with a failure leaves the directory of a failure. -/
theorem Finished.failed {outcome : CaptureOutcome} (hbase : Ready base)
    (h : Finished base mark n printer code s outcome b)
    (hexit : outcome.exitCode = 1 ∨ outcome.exitCode = 3) :
    FailedDirectory printer b.out := by
  cases h with
  | first formed c hreleased houtcome =>
      have hcode : code = 1 ∨ code = 3 := by
        rw [houtcome] at hexit
        exact hexit
      have hwithdrawn := hreleased.form.failed hcode
      rcases hwithdrawn.2 with ⟨m, hform⟩
      rw [hreleased.released]
      refine failedDirectory_of_shows (b := c) hbase ?_ hform hreleased.recorded.shows
      intro name hname
      rw [hreleased.recorded.beside.other name (fun hrecord => record_not_data hrecord hname)]
      refine hreleased.form.within.retracted ?_ hwithdrawn hname
      intro other hother
      cases hother
  | again formed hformed hagain hid =>
      rcases hagain.record with ⟨d, hmanifest, _, hrecorded⟩ | hnone
      · exact failedDirectory_of_shows hbase hagain.retracted hmanifest hrecorded.shows
      · refine ⟨?_, Or.inl ((hnone _ (by decide)).trans hbase.manifest)⟩
        intro name hname
        exact file?_of_clear (hbase.clear_data hname) (hagain.retracted name hname)

/-- A run that ends without a failure lists exactly the data files of its directory. -/
theorem Finished.complete {outcome : CaptureOutcome} (hbase : Ready base)
    (hs : Within base mark [] n s) (hsuccess : Success base sha256Hex env s)
    (h : Finished base mark n printer code s outcome b)
    (hexit : ¬ (outcome.exitCode = 1 ∨ outcome.exitCode = 3)) :
    CompleteDirectory printer sha256Hex b.out := by
  cases h with
  | again formed hformed hagain hid =>
      rw [hagain.exit] at hexit
      exact absurd (exitFor_failure _ _) hexit
  | first formed c hreleased houtcome =>
      have hcode : ¬ (code = 1 ∨ code = 3) := by
        rw [houtcome] at hexit
        exact hexit
      have hformed := hreleased.form.succeeded hcode
      have hsame : forall name, name ∈ kDataFiles -> b.out.entry name = s.out.entry name := by
        intro name hname
        rw [hreleased.released]
        change c.out.entry name = s.out.entry name
        rw [hreleased.recorded.beside.other name (fun hrecord => record_not_data hrecord hname),
          hformed]
      have hshows : b.out.entry "manifest.json" =
          some ⟨.file (manifestText printer formed.manifest), false⟩ := by
        rw [hreleased.released]
        exact hreleased.recorded.shows
      refine ⟨formed.manifest, file?_eq_of_entry hshows, ?_, ?_, ?_, ?_⟩
      · rw [hformed]
        exact hsuccess.sanitized
      · rw [hformed]
        exact hsuccess.leakCheck
      · rw [hformed]
        rcases hsuccess.topologyId with ⟨text, htext⟩
        change s.manifest.topologyId.isSome = true
        rw [htext]
        rfl
      · intro name
        have hfiles : formed.manifest.files = s.manifest.files := by
          rw [hformed]
        rw [hfiles]
        split_ifs with hname
        · by_cases hwritten : name ∈ s.written
          · rcases hsuccess.listed name hwritten with ⟨bytes, hentry, hhash⟩
            rw [hhash, file?_eq_of_entry ((hsame name hname).trans hentry)]
            rfl
          · have hentry : s.out.entry name = base.entry name := by
              by_contra hne
              rcases (hs.changes.owned name hne).1.1 with hmem | hmem
              · exact hwritten hmem
              · cases hmem
            rw [hsuccess.unlisted name hwritten, file?_of_clear (hbase.clear_data hname)
              ((hsame name hname).trans hentry)]
            rfl
        · exact hsuccess.unlisted name (fun hwritten => hname (hs.written name hwritten))

end Ends

/-!
## One run
-/

section Run

variable {printer : Printer} {sha256Hex : Bytes -> String} {env : Env} {s : Run}

theorem within_start (hs : Fresh s) (hbase : Ready s.out) : Within s.out s.tracked [] 0 s := by
  refine ⟨Out.Changes.refl hbase.directory, ?_, List.prefix_refl _, fun _ hpath => Or.inl hpath,
    Nat.le_refl _⟩
  intro name hname
  rw [hs.written] at hname
  cases hname

theorem staging_returns (sha256Hex : Bytes -> String) (env : Env) (hs : Fresh s)
    (hbase : Ready s.out) :
    (Effect.handle (withScratch env (stageAndCheck sha256Hex env)) failWith s).result =
        .ok ⟨⟩ ∧
      Judged s.out sha256Hex env (stopOf sha256Hex env s) (stagedState sha256Hex env s) := by
  rcases judged_staging sha256Hex env hs hbase with ⟨b, hrun, hjudged⟩
  have hstate : stagedState sha256Hex env s = b := congrArg Prod.snd hrun
  rw [hstate]
  exact ⟨congrArg Prod.fst hrun, hjudged⟩

theorem within_stagedState (hs : Fresh s) (hbase : Ready s.out)
    (hroom : s.tracked.length + 18 ≤ kMaxTracked) :
    Within s.out s.tracked [] 12 (stagedState sha256Hex env s) := by
  have hcosts := costs_staging sha256Hex env s.tracked [] hbase 0
    ((Nat.add_le_add_left (by decide) _).trans hroom) s (within_start hs hbase)
  have hend := hcosts.2
  rw [(staging_returns sha256Hex env hs hbase).1] at hend
  exact hend

theorem run_go (printer : Printer) (sha256Hex : Bytes -> String) (env : Env) (hs : Fresh s)
    (hbase : Ready s.out) (k : Nat) :
    Effect.run (go printer sha256Hex env k) s =
      Effect.run (finish printer env k) (stagedState sha256Hex env s) :=
  Effect.run_bind_of_ok _ (staging_returns sha256Hex env hs hbase).1

/-- The facts of the GPUs are missing, for one of the reasons of the source. -/
def NvmlMissing (env : Env) : Prop := exists reason, env.sources = .ok (.missing reason)

/-- The exit code of a run for the failures that occurred. -/
structure ExitCodes (stop : Stop) (recordFails nvmlMissing : Prop) (code : Nat) : Prop where
  three : code = 3 <-> stop.SchemaFailure ∨ stop.LeakFailure
  one : code = 1 <->
    ¬ (stop.SchemaFailure ∨ stop.LeakFailure) ∧ (stop.OtherFailure ∨ recordFails)
  two : code = 2 <-> ¬ (stop.SchemaFailure ∨ stop.LeakFailure) ∧
    ¬ (stop.OtherFailure ∨ recordFails) ∧ nvmlMissing
  zero : code = 0 <-> ¬ (stop.SchemaFailure ∨ stop.LeakFailure) ∧
    ¬ (stop.OtherFailure ∨ recordFails) ∧ ¬ nvmlMissing

theorem exitFor_eq (leakOrSchema otherFailure isPartial : Bool) :
    (exitFor leakOrSchema otherFailure isPartial = 3 <-> leakOrSchema = true) ∧
    (exitFor leakOrSchema otherFailure isPartial = 1 <->
      ¬ leakOrSchema = true ∧ otherFailure = true) ∧
    (exitFor leakOrSchema otherFailure isPartial = 2 <->
      ¬ leakOrSchema = true ∧ ¬ otherFailure = true ∧ isPartial = true) ∧
    (exitFor leakOrSchema otherFailure isPartial = 0 <->
      ¬ leakOrSchema = true ∧ ¬ otherFailure = true ∧ ¬ isPartial = true) := by
  revert leakOrSchema otherFailure isPartial
  decide

theorem Success.isPartial_iff {base : Out} {b : Run} (h : Success base sha256Hex env b) :
    b.isPartial = true <-> NvmlMissing env := by
  rcases h.sources with ⟨nvml, hsources, _, hincomplete⟩
  rw [hincomplete]
  unfold NvmlMissing
  cases nvml with
  | missing reason =>
      refine ⟨fun _ => ⟨reason, hsources⟩, fun _ => rfl⟩
  | notRequired =>
      refine ⟨fun hfalse => absurd hfalse Bool.false_ne_true, ?_⟩
      rintro ⟨reason, hreason⟩
      rw [hsources] at hreason
      cases hreason
  | facts text =>
      refine ⟨fun hfalse => absurd hfalse Bool.false_ne_true, ?_⟩
      rintro ⟨reason, hreason⟩
      rw [hsources] at hreason
      cases hreason

/-- The exit code follows from the flags and the record. -/
theorem exitCodes_of_flags {base : Out} {stop : Stop} {b : Run} {code : Nat} {recordFails : Prop}
    (h : Judged base sha256Hex env stop b)
    (hcode : recordFails ∧ code = exitFor b.leakOrSchema true b.isPartial ∨
      ¬ recordFails ∧ code = exitFor b.leakOrSchema b.otherFailure b.isPartial) :
    ExitCodes stop recordFails (NvmlMissing env) code := by
  have hincomplete : ¬ (stop.SchemaFailure ∨ stop.LeakFailure) -> ¬ stop.OtherFailure ->
      (b.isPartial = true <-> NvmlMissing env) := by
    intro hjudged hother
    rw [← h.leakOrSchema, Bool.not_eq_true] at hjudged
    rw [← h.otherFailure, Bool.not_eq_true] at hother
    exact (h.success (h.clean hjudged hother)).isPartial_iff
  rcases hcode with ⟨hfails, hcode⟩ | ⟨hwrites, hcode⟩
  · rcases exitFor_eq b.leakOrSchema true b.isPartial with ⟨hthree, hone, htwo, hzero⟩
    rw [← hcode, h.leakOrSchema] at hthree hone htwo hzero
    refine ⟨hthree, ?_, ?_, ?_⟩
    · rw [hone]
      exact and_congr_right (fun _ => ⟨fun _ => Or.inr hfails, fun _ => rfl⟩)
    · rw [htwo]
      exact ⟨fun h => absurd rfl h.2.1, fun h => absurd (Or.inr hfails) h.2.1⟩
    · rw [hzero]
      exact ⟨fun h => absurd rfl h.2.1, fun h => absurd (Or.inr hfails) h.2.1⟩
  · rcases exitFor_eq b.leakOrSchema b.otherFailure b.isPartial with ⟨hthree, hone, htwo, hzero⟩
    rw [← hcode, h.leakOrSchema] at hthree hone htwo hzero
    rw [h.otherFailure] at hone htwo hzero
    have hor : stop.OtherFailure ∨ recordFails <-> stop.OtherFailure := or_iff_left hwrites
    refine ⟨hthree, ?_, ?_, ?_⟩
    · rw [hone, hor]
    · rw [htwo, hor]
      exact and_congr_right (fun hjudged => and_congr_right (fun hother =>
        hincomplete hjudged hother))
    · rw [hzero, hor]
      exact and_congr_right (fun hjudged => and_congr_right (fun hother =>
        not_congr (hincomplete hjudged hother)))

/-- What a run that returns has done. -/
structure RunContract (printer : Printer) (sha256Hex : Bytes -> String) (env : Env) (s : Run)
    (code : Nat) (out : Out) : Prop where
  exit : ExitCodes (stopOf sha256Hex env s)
    (RecordFails printer env (stagedState sha256Hex env s)) (NvmlMissing env) code
  failed : code = 1 ∨ code = 3 -> FailedDirectory printer out
  complete : code = 0 ∨ code = 2 -> CompleteDirectory printer sha256Hex out

theorem go_contract (hs : Fresh s) (hbase : Ready s.out)
    (hroom : s.tracked.length + 18 ≤ kMaxTracked) {outcome : CaptureOutcome}
    (h : (go printer sha256Hex env s.tracked.length s).result = .ok outcome) :
    RunContract printer sha256Hex env s outcome.exitCode
      (go printer sha256Hex env s.tracked.length s).state.out := by
  have hrun := run_go printer sha256Hex env hs hbase s.tracked.length
  have hresult := (congrArg Prod.fst hrun).symm.trans h
  have hstate : (go printer sha256Hex env s.tracked.length s).state = _ :=
    congrArg Prod.snd hrun
  have hwithin : Within s.out s.tracked [] 12 (stagedState sha256Hex env s) :=
    within_stagedState hs hbase hroom
  have hjudged := (staging_returns sha256Hex env hs hbase).2
  have hexit := exitCodes_of_flags hjudged (finish_exit hbase hroom hwithin hresult)
  have hfinished := (holds_finish printer env hbase hroom hwithin _ rfl).2
  dsimp only [Effect.run] at hresult
  rw [hresult] at hfinished
  rw [hstate]
  refine ⟨hexit, hfinished.failed hbase, ?_⟩
  intro hcode
  have hjudge : ¬ ((stopOf sha256Hex env s).SchemaFailure ∨
        (stopOf sha256Hex env s).LeakFailure) ∧
      ¬ ((stopOf sha256Hex env s).OtherFailure ∨
        RecordFails printer env (stagedState sha256Hex env s)) := by
    rcases hcode with hcode | hcode
    · rcases hexit.zero.mp hcode with ⟨hjudge, hother, _⟩
      exact ⟨hjudge, hother⟩
    · rcases hexit.two.mp hcode with ⟨hjudge, hother, _⟩
      exact ⟨hjudge, hother⟩
  have hleak := Bool.not_eq_true _ ▸ mt hjudged.leakOrSchema.mp hjudge.1
  have hother := Bool.not_eq_true _ ▸ mt hjudged.otherFailure.mp (fun h => hjudge.2 (Or.inl h))
  refine hfinished.complete hbase hwithin (hjudged.success (hjudged.clean hleak hother)) ?_
  intro hbad
  rcases hcode with hcode | hcode
  · rw [hcode] at hbad
    revert hbad
    decide
  · rw [hcode] at hbad
    revert hbad
    decide

theorem Finished.changes {base : Out} {mark : List Path} {n code : Nat} {b : Run}
    {outcome : CaptureOutcome} (h : Finished base mark n printer code s outcome b) :
    Out.Changes base reserved b.out := by
  cases h with
  | first formed c hreleased houtcome =>
      rw [hreleased.released]
      exact hreleased.recording.within.reserved
  | again formed hformed hagain hid => exact hagain.within.reserved

/-- The moments of a run in its scope, and how it ends. -/
theorem holds_go (printer : Printer) (sha256Hex : Bytes -> String) (env : Env)
    (hs : Fresh s) (hbase : Ready s.out) (hroom : s.tracked.length + 18 ≤ kMaxTracked) :
    (go printer sha256Hex env s.tracked.length).Holds (· = s)
      (fun b => Within s.out s.tracked [] 12 b ∨ Moment s.out s.tracked 12 printer env
        (exitFor (stagedState sha256Hex env s).leakOrSchema
          (stagedState sha256Hex env s).otherFailure (stagedState sha256Hex env s).isPartial)
        (stagedState sha256Hex env s) b)
      (Finished s.out s.tracked 12 printer
        (exitFor (stagedState sha256Hex env s).leakOrSchema
          (stagedState sha256Hex env s).otherFailure (stagedState sha256Hex env s).isPartial)
        (stagedState sha256Hex env s))
      (fun _ b => Seen s.out s.tracked 12 printer env
        (exitFor (stagedState sha256Hex env s).leakOrSchema
          (stagedState sha256Hex env s).otherFailure (stagedState sha256Hex env s).isPartial)
        (stagedState sha256Hex env s) b ∧
        Out.Changes s.out reserved b.out ∧ s.tracked <+: b.tracked) := by
  rintro b rfl
  have hcosts := costs_staging sha256Hex env b.tracked [] hbase 0
    ((Nat.add_le_add_left (by decide) _).trans hroom) b (within_start hs hbase)
  have hwithin : Within b.out b.tracked [] 12 (stagedState sha256Hex env b) :=
    within_stagedState hs hbase hroom
  rcases holds_finish printer env hbase hroom hwithin _ rfl with ⟨hvisited, hend⟩
  unfold go
  rw [Effect.bind_of_ok _ (staging_returns sha256Hex env hs hbase).1]
  refine ⟨?_, hend⟩
  intro v hv
  rcases List.mem_append.mp hv with hv | hv
  · exact Or.inl (hcosts.1 v hv)
  · exact Or.inr (hvisited v hv)

/-- However a run ends, it has changed its output under reserved names only. -/
theorem go_changes (printer : Printer) (sha256Hex : Bytes -> String) (env : Env)
    (hs : Fresh s) (hbase : Ready s.out) (hroom : s.tracked.length + 18 ≤ kMaxTracked) :
    Out.Changes s.out reserved
      (go printer sha256Hex env s.tracked.length s).state.out := by
  have hrun := run_go printer sha256Hex env hs hbase s.tracked.length
  have hstate : (go printer sha256Hex env s.tracked.length s).state = _ :=
    congrArg Prod.snd hrun
  have hwithin : Within s.out s.tracked [] 12 (stagedState sha256Hex env s) :=
    within_stagedState hs hbase hroom
  have hend := (holds_finish printer env hbase hroom hwithin _ rfl).2
  rw [hstate]
  dsimp only [Effect.run]
  cases hresult : (finish printer env s.tracked.length
      (stagedState sha256Hex env s)).result with
  | ok outcome =>
      rw [hresult] at hend
      exact hend.changes
  | error e =>
      rw [hresult] at hend
      exact hend.2.1

end Run

/-!
## Sequences of runs
-/

/-- A command of the tool that writes into an output directory. -/
inductive Command where
  | capture (env : Env) (diag : List Bytes)
  | failed (code : ErrorCode) (env : Env) (diag : List Bytes)

section Commands

variable (printer : Printer) (sha256Hex : Bytes -> String)

def Command.run (out : Out) : Command -> Outcome Run Exn CaptureOutcome
  | .capture env diag => Capture.capture printer sha256Hex env (Run.start out [] diag)
  | .failed code env diag => writeFailedCapture printer env code (Run.start out [] diag)

/-- The directory after a sequence of commands. -/
def runAll (commands : List Command) (out : Out) : Out :=
  commands.foldl (fun out c => (c.run printer sha256Hex out).state.out) out

/-- The contract of a command that returns. -/
def Command.Contract (out : Out) (outcome : CaptureOutcome) (out' : Out) : Command -> Prop
  | .capture env diag =>
      Refuses env out ∧ outcome.exitCode = 1 ∧ out' = out ∨
        ¬ Refuses env out ∧ RunContract printer sha256Hex env
          (prepareOut env (Run.start out [] diag)).state outcome.exitCode out'
  | .failed _ env _ => outcome.exitCode = 1 ∧
      (Refuses env out ∧ out' = out ∨ ¬ Refuses env out ∧ FailedDirectory printer out')

variable {printer sha256Hex} {env : Env} {s : Run}

/-- A run that takes its output and goes on, or refuses it, or throws before it is taken. -/
inductive Captured (printer : Printer) (sha256Hex : Bytes -> String) (env : Env) (s : Run)
    (o : Outcome Run Exn CaptureOutcome) : Prop
  | refused (h : Refuses env s.out) (result : o.result = .ok ⟨1, none⟩)
      (out : o.state.out = s.out)
  | went (h : ¬ Refuses env s.out) (b : Run) (prepare : b = (prepareOut env s).state)
      (prepared : Prepared s b)
      (result : o.result = (go printer sha256Hex env b.tracked.length b).result)
      (out : o.state.out = (go printer sha256Hex env b.tracked.length b).state.out)
  | thrown (e : Exn) (result : o.result = .error e) (out : o.state.out = s.out)

theorem captured (printer : Printer) (sha256Hex : Bytes -> String) (env : Env)
    (hout : Removable s.out) :
    Captured printer sha256Hex env s (capture printer sha256Hex env s) := by
  have hprepare := (holds_prepareOut env (I := fun _ => True) hout (fun _ _ => trivial)
    (fun _ _ _ _ => trivial) (fun _ _ => trivial) s rfl).2
  have hrun : (capture printer sha256Hex env s).result =
      (Effect.run (capture printer sha256Hex env) s).1 := rfl
  have hstate : (capture printer sha256Hex env s).state =
      (Effect.run (capture printer sha256Hex env) s).2 := rfl
  cases hresult : (prepareOut env s).result with
  | ok prepared =>
      rw [hresult] at hprepare
      have hhandle : Effect.run (handleSystem (prepareOut env) (pure false)) s =
        (.ok prepared, _) := Effect.run_handle_of_ok _ hresult
      have hcapture : Effect.run (capture printer sha256Hex env) s = _ :=
        Effect.run_bind_of_ok _ (congrArg Prod.fst hhandle)
      have hlast : (handleSystem (prepareOut env) (pure false) s).state = _ :=
        congrArg Prod.snd hhandle
      rw [hlast] at hcapture
      rcases hprepare with ⟨rfl, htaken, hprepared⟩ | ⟨rfl, hrefuses, hsame⟩
      · refine .went htaken _ rfl hprepared ?_ ?_
        · rw [hrun, hcapture]
          rfl
        · rw [hstate, hcapture]
          rfl
      · refine .refused hrefuses ?_ ?_
        · rw [hrun, hcapture]
          rfl
        · rw [hstate, hcapture]
          exact hsame
  | error e =>
      rw [hresult] at hprepare
      have hhandle : Effect.run (handleSystem (prepareOut env) (pure false)) s = _ :=
        Effect.run_handle_of_error _ hresult
      cases e with
      | system =>
          have hcapture : Effect.run (capture printer sha256Hex env) s = _ :=
            Effect.run_bind_of_ok _ (congrArg Prod.fst hhandle)
          have hlast : (handleSystem (prepareOut env) (pure false) s).state = _ :=
            congrArg Prod.snd hhandle
          rw [hlast] at hcapture
          refine .refused (hprepare.1 rfl) ?_ ?_
          · rw [hrun, hcapture]
            rfl
          · rw [hstate, hcapture]
            exact hprepare.2
      | _ =>
          have hcapture : Effect.run (capture printer sha256Hex env) s = _ :=
            Effect.run_bind_of_error _ (congrArg Prod.fst hhandle)
          refine .thrown _ (hrun.trans (congrArg Prod.fst hcapture)) ?_
          rw [hstate, hcapture]
          exact (congrArg (fun o => o.2.out) hhandle).trans hprepare.2

/-- The states of the record of a failure: no data file is there, nor another manifest. -/
structure FailedRecord (printer : Printer) (base : Out) (m : Manifest) (b : Run) : Prop where
  changes : Out.Changes base reserved b.out
  data : forall name, name ∈ kDataFiles -> b.out.entry name = base.entry name
  manifest : b.manifest = m.failedForm
  shown : b.out.entry "manifest.json" = none ∨ b.out.entry "manifest.json" =
    some ⟨.file (manifestText printer m.failedForm), false⟩

theorem FailedRecord.directory {base : Out} {m : Manifest} {b : Run}
    (h : FailedRecord printer base m b) (hbase : Ready base) :
    FailedDirectory printer b.out := by
  rcases h.shown with hnone | hshown
  · refine ⟨?_, Or.inl hnone⟩
    intro name hname
    exact file?_of_clear (hbase.clear_data hname) (h.data name hname)
  · refine failedDirectory_of_shows hbase h.data h.manifest ?_
    unfold Shows
    rw [h.manifest]
    exact hshown

theorem data_ne_record {name record : String} (hname : name ∈ kDataFiles)
    (hrecord : record ∈ kRecordFiles) : name ≠ record := by
  rintro rfl
  exact record_not_data hrecord hname

/-- The record of a failure before the pipeline ran. -/
theorem holds_failedRecord {base : Out} {m : Manifest} (hbase : Ready base)
    (printer : Printer) (env : Env) (again : Bool) :
    (writeManifestAtomic printer env again).Holds
      (fun b => FailedRecord printer base m b ∧ b.out.entry "manifest.json" = none)
      (FailedRecord printer base m) (fun _ => FailedRecord printer base m)
      (fun _ => FailedRecord printer base m) := by
  have htemporary : forall b, FailedRecord printer base m b ∧
      b.out.entry "manifest.json" = none -> forall o, Temporary base b.out o ->
      FailedRecord printer base m { b with out := o } := by
    rintro b ⟨hb, hnone⟩ o ho
    refine ⟨ho.changes hb.changes (Or.inr temporary_mem), ?_, hb.manifest, Or.inl ?_⟩
    · intro name hname
      exact (ho.other name (data_ne_record hname temporary_mem)).trans (hb.data name hname)
    · exact (ho.other _ (by decide)).trans hnone
  have hinstalled : forall b, FailedRecord printer base m b ∧
      b.out.entry "manifest.json" = none -> forall o,
      Installed base b.out (manifestText printer b.manifest) o ->
      FailedRecord printer base m { b with out := o } := by
    rintro b ⟨hb, hnone⟩ o ho
    refine ⟨ho.changes hbase hb.changes (Or.inr (by decide)), ?_, hb.manifest, Or.inr ?_⟩
    · intro name hname
      exact (ho.other name (data_ne_record hname temporary_mem)
        (data_ne_record hname (by decide))).trans (hb.data name hname)
    · rw [← hb.manifest]
      exact ho.manifest
  refine holds_writeManifestAtomic hbase ?_ htemporary
    (fun b hb o ho _ => htemporary b hb o ho) ?_
  · intro b hb
    exact ⟨_, hb.1.changes, Or.inr temporary_mem⟩
  · intro b hb o ho
    exact ⟨hinstalled b hb o ho, hinstalled b hb o ho, fun _ => hinstalled b hb o ho⟩

/-- A run that fails before its pipeline refuses the output, or leaves the record of a failure. -/
def FailedEarly (printer : Printer) (env : Env) (s b : Run) : Prop :=
  Refuses env s.out ∧ b.out = s.out ∨ ¬ Refuses env s.out ∧
    exists base m, Ready base ∧
      (forall name, ¬ reserved name -> base.entry name = s.out.entry name) ∧
      FailedRecord printer base m b

theorem FailedRecord.write {base : Out} {m : Manifest} {b : Run}
    (h : FailedRecord printer base m b) (hbase : Ready base)
    (hnone : b.out.entry "manifest.json" = none)
    (hopens : b.out.opens "diagnostics.txt" false = true) (part : Bytes) :
    FailedRecord printer base m { b with out := b.out.write "diagnostics.txt" part } ∧
      (b.out.write "diagnostics.txt" part).entry "manifest.json" = none := by
  have hmanifest : (b.out.write "diagnostics.txt" part).entry "manifest.json" = none := by
    rw [Out.entry_write part h.changes.directory, if_neg (by decide)]
    exact hnone
  refine ⟨⟨?_, ?_, h.manifest, Or.inl hmanifest⟩, hmanifest⟩
  · exact h.changes.write (Or.inr (by decide)) (hbase.clear_record (by decide)) hopens part
  · intro name hname
    change (b.out.write "diagnostics.txt" part).entry name = _
    rw [Out.entry_write part h.changes.directory, if_neg (data_ne_record hname (by decide))]
    exact h.data name hname

theorem Prepared.failedRecord {m : Manifest} {b : Run} (h : Prepared s b)
    (hs : s.manifest = m.failedForm) : FailedRecord printer b.out m b :=
  ⟨Out.Changes.refl h.ready.directory, fun _ _ => rfl, h.manifest.trans hs,
    Or.inl h.ready.manifest⟩

theorem holds_writeFailedRecord {m : Manifest} {I : Run -> Prop} (printer : Printer)
    (env : Env) (hout : Removable s.out) (hs : s.manifest = m.failedForm)
    (hsame : forall b, b.out = s.out -> I b)
    (hremoving : forall done b, previous env s.out = .object -> Removing s done b -> I b)
    (hrecord : forall base m b, Ready base -> FailedRecord printer base m b -> I b) :
    (writeFailedRecord printer env).Holds (· = s) I
      (fun _ => FailedEarly printer env s)
      (fun e b => FailedEarly printer env s b ∨ e ≠ .system ∧ b.out = s.out) := by
  refine Effect.Holds.bind (Q := fun prepared b =>
    prepared = true ∧ ¬ Refuses env s.out ∧ Prepared s b ∨
      prepared = false ∧ Refuses env s.out ∧ b.out = s.out)
    ((holds_prepareOut env hout hsame hremoving (fun b hb =>
      hrecord b.out m b hb.ready (hb.failedRecord hs))).weaken (fun _ hb => hb)
      (fun _ hb => hb) (fun _ _ hb => hb) ?_) (fun prepared => ?_)
  · rintro e b ⟨hrefuses, hsame⟩
    by_cases hsystem : e = .system
    · exact Or.inl (Or.inl ⟨hrefuses hsystem, hsame⟩)
    · exact Or.inr ⟨hsystem, hsame⟩
  · cases prepared with
    | false =>
        apply Effect.holds_pure
        rintro b (⟨htrue, _⟩ | ⟨_, hrefuses, hsame⟩)
        · cases htrue
        · exact Or.inl ⟨hrefuses, hsame⟩
    | true =>
        apply Effect.holds_get_bind
        rintro b (⟨_, htaken, hprepared⟩ | ⟨hfalse, _⟩)
        · have hbase := hprepared.ready
          have hearly : forall c, FailedRecord printer b.out m c ->
              FailedEarly printer env s c :=
            fun c hc => Or.inr ⟨htaken, b.out, m, hbase, hprepared.other, hc⟩
          refine Effect.Holds.bind (Q := fun _ c => FailedRecord printer b.out m c ∧
            c.out.entry "manifest.json" = none) (holds_writeSynced _ ?_ ?_ ?_ ?_) (fun _ => ?_)
          · rintro c rfl hopens part
            exact hrecord _ m _ hbase
              ((hprepared.failedRecord hs).write hbase hbase.manifest hopens part).1
          · rintro c rfl hopens
            exact (hprepared.failedRecord hs).write hbase hbase.manifest hopens _
          · rintro c rfl hopens part
            exact Or.inl (hearly _
              ((hprepared.failedRecord hs).write hbase hbase.manifest hopens part).1)
          · rintro c rfl
            exact Or.inl (hearly _ (hprepared.failedRecord hs))
          · exact (holds_failedRecord hbase printer env false).weaken (fun _ hc => hc)
              (fun c hc => hrecord _ m c hbase hc) (fun _ c hc => hearly c hc)
              (fun _ c hc => Or.inl (hearly c hc))
        · cases hfalse

/-- The command of a failure before the pipeline: it always returns one, or throws early. -/
theorem holds_writeFailedCapture {I : Run -> Prop} (printer : Printer) (env : Env)
    (code : ErrorCode) (hout : Removable s.out) (hs : s.manifest = Manifest.start)
    (hsame : forall b, b.out = s.out -> I b)
    (hremoving : forall (start : Run) done b, start.out = s.out ->
      previous env s.out = .object -> Removing start done b -> I b)
    (hrecord : forall base m b, Ready base -> FailedRecord printer base m b -> I b) :
    (writeFailedCapture printer env code).Holds (· = s) I
      (fun outcome b => outcome = ⟨1, none⟩ ∧ FailedEarly printer env s b)
      (fun _ b => FailedEarly printer env s b ∨ b.out = s.out) := by
  let s1 : Run := { s with manifest := { s.manifest with errors := s.manifest.errors ++ [code] } }
  refine Effect.Holds.bind (Q := fun _ b => b = s1) (Effect.holds_modify ?_ ?_) (fun _ => ?_)
  · rintro b rfl
    exact hsame _ rfl
  · rintro b rfl
    rfl
  let s2 : Run := { s1 with diag := s1.diag ++
    [ascii ("capture: failed before the pipeline ran (" ++ code.name ++ ")")] }
  refine Effect.Holds.bind (Q := fun _ b => b = s2) (Effect.holds_modify ?_ ?_) (fun _ => ?_)
  · rintro b rfl
    exact hsame _ rfl
  · rintro b rfl
    rfl
  have hform : s2.manifest = s2.manifest.failedForm := by
    dsimp only [s2, s1]
    rw [hs]
    rfl
  have hwrite := holds_writeFailedRecord (s := s2) printer env hout hform hsame
    (fun done b hobject hb => hremoving s2 done b rfl hobject hb) hrecord
  refine Effect.Holds.bind (Q := fun _ => FailedEarly printer env s)
    (holds_handleSystem hwrite ?_ ?_) (fun _ => ?_)
  · apply Effect.holds_pure
    rintro b (hearly | ⟨hne, _⟩)
    · exact hearly
    · exact absurd rfl hne
  · rintro e b (hearly | ⟨_, hsame⟩)
    · exact Or.inl hearly
    · exact Or.inr hsame
  · exact Effect.holds_pure (fun b hb => ⟨rfl, hb⟩)

theorem Ready.removable {base out : Out} (h : Ready base)
    (hchanges : Out.Changes base reserved out) : Removable out := by
  intro name hname e he hstuck
  by_cases hsame : out.entry name = base.entry name
  · rw [hsame] at he
    rcases h.clear name hname with hnone | htree
    · rw [hnone] at he
      cases he
    · rw [htree] at he
      cases he
      rfl
  · rcases (hchanges.owned name hsame).2 with ⟨_, bytes, hbytes⟩
    rw [hbytes] at he
    cases he
    cases hstuck

theorem start_fresh (out : Out) (tracked : List Path) (diag : List Bytes) :
    Fresh (Run.start out tracked diag) := ⟨rfl, rfl, rfl, rfl, rfl⟩

theorem Prepared.fresh {b : Run} (h : Prepared s b) (hs : Fresh s) : Fresh b :=
  ⟨h.manifest.trans hs.manifest, h.written.trans hs.written, h.leakOrSchema.trans hs.leakOrSchema,
    h.otherFailure.trans hs.otherFailure, h.isPartial.trans hs.isPartial⟩

theorem Prepared.room {b : Run} (h : Prepared s b) (hs : s.tracked = []) :
    b.tracked.length + 18 ≤ kMaxTracked := by
  rw [h.tracked, hs]
  decide

/-- A run that goes on keeps what is not reserved, and its own files can be removed. -/
theorem Prepared.go_keeps {b : Run} (h : Prepared s b) (printer : Printer)
    (sha256Hex : Bytes -> String) (env : Env) (hs : Fresh s) (hroom : s.tracked = []) :
    (forall name, ¬ reserved name ->
      (go printer sha256Hex env b.tracked.length b).state.out.entry name =
        s.out.entry name) ∧
      Removable (go printer sha256Hex env b.tracked.length b).state.out := by
  have hchanges := go_changes printer sha256Hex env (h.fresh hs) h.ready (h.room hroom)
  refine ⟨?_, h.ready.removable hchanges⟩
  intro name hname
  by_contra hne
  refine hname (hchanges.owned name ?_).1
  rw [h.other name hname]
  exact hne

/-- One command keeps what is not reserved, whether it returns or not. -/
theorem Command.keeps (c : Command) {out : Out} (hout : Removable out) :
    (forall name, ¬ reserved name ->
      (c.run printer sha256Hex out).state.out.entry name = out.entry name) ∧
      Removable (c.run printer sha256Hex out).state.out := by
  have hsame : forall o : Out, o = out ->
      (forall name, ¬ reserved name -> o.entry name = out.entry name) ∧ Removable o := by
    rintro o rfl
    exact ⟨fun _ _ => rfl, hout⟩
  cases c with
  | capture env diag =>
      have hs : Removable (Run.start out [] diag).out := hout
      cases captured printer sha256Hex env hs with
      | refused _ _ hend => exact hsame _ hend
      | thrown e _ hend => exact hsame _ hend
      | went _ b _ hprepared _ hend =>
          have hkeeps := hprepared.go_keeps printer sha256Hex env
            (start_fresh out [] diag) rfl
          rw [← hend] at hkeeps
          exact hkeeps
  | failed code env diag =>
      have hearly : forall b, FailedEarly printer env (Run.start out [] diag) b ->
          (forall name, ¬ reserved name -> b.out.entry name = out.entry name) ∧
            Removable b.out := by
        rintro b (⟨_, hend⟩ | ⟨_, base, m, hbase, hother, hrecord⟩)
        · exact hsame _ hend
        · refine ⟨?_, hbase.removable hrecord.changes⟩
          intro name hname
          by_contra hne
          refine hname (hrecord.changes.owned name ?_).1
          rw [hother name hname]
          exact hne
      have hend := ((holds_writeFailedCapture (I := fun _ => True) printer env code hout rfl
        (fun _ _ => trivial) (fun _ _ _ _ _ _ => trivial) (fun _ _ _ _ _ => trivial))
        (Run.start out [] diag) rfl).2
      change (forall name, ¬ reserved name -> (writeFailedCapture printer env code
        (Run.start out [] diag)).state.out.entry name = _) ∧ Removable (writeFailedCapture
        printer env code (Run.start out [] diag)).state.out
      cases hresult : (writeFailedCapture printer env code
          (Run.start out [] diag)).result with
      | ok outcome =>
          rw [hresult] at hend
          exact hearly _ hend.2
      | error e =>
          rw [hresult] at hend
          rcases hend with hend | hend
          · exact hearly _ hend
          · exact hsame _ hend

/-- One command meets its contract. -/
theorem Command.contract (c : Command) {out : Out} (hout : Removable out)
    {outcome : CaptureOutcome} (h : (c.run printer sha256Hex out).result = .ok outcome) :
    c.Contract printer sha256Hex out outcome (c.run printer sha256Hex out).state.out := by
  cases c with
  | capture env diag =>
      have hs : Removable (Run.start out [] diag).out := hout
      cases captured printer sha256Hex env hs with
      | refused hrefuses hresult hend =>
          have houtcome : outcome = ⟨1, none⟩ := Except.ok.inj (h.symm.trans hresult)
          refine Or.inl ⟨hrefuses, ?_, hend⟩
          rw [houtcome]
      | thrown e hresult _ =>
          have herror := h.symm.trans hresult
          cases herror
      | went htaken b hb hprepared hresult hend =>
          refine Or.inr ⟨htaken, ?_⟩
          have hcontract := go_contract (hprepared.fresh (start_fresh out [] diag))
            hprepared.ready (hprepared.room rfl) (hresult.symm.trans h)
          rw [← hend, hb] at hcontract
          exact hcontract
  | failed code env diag =>
      have hend := ((holds_writeFailedCapture (I := fun _ => True) printer env code hout rfl
        (fun _ _ => trivial) (fun _ _ _ _ _ _ => trivial) (fun _ _ _ _ _ => trivial))
        (Run.start out [] diag) rfl).2
      change (writeFailedCapture printer env code (Run.start out [] diag)).result = _ at h
      rw [h] at hend
      rcases hend with ⟨houtcome, hearly⟩
      refine ⟨?_, ?_⟩
      · rw [houtcome]
      · rcases hearly with ⟨hrefuses, hsame⟩ | ⟨htaken, base, m, hbase, _, hrecord⟩
        · exact Or.inl ⟨hrefuses, hsame⟩
        · exact Or.inr ⟨htaken, hrecord.directory hbase⟩

theorem runAll_removable (printer : Printer) (sha256Hex : Bytes -> String) (commands : List Command)
    {out : Out} (hout : Removable out) :
    Removable (runAll printer sha256Hex commands out) := by
  induction commands generalizing out with
  | nil => exact hout
  | cons c rest ih => exact ih (c.keeps hout).2

/-- After any sequence of runs, the next one meets its contract and keeps the other names. -/
theorem captures_contract (commands : List Command) (c : Command) {out : Out}
    (hout : Removable out) {outcome : CaptureOutcome}
    (h : (c.run printer sha256Hex (runAll printer sha256Hex commands out)).result =
      .ok outcome) :
    c.Contract printer sha256Hex (runAll printer sha256Hex commands out) outcome
        (runAll printer sha256Hex (commands ++ [c]) out) ∧
      forall name, ¬ reserved name ->
        (runAll printer sha256Hex (commands ++ [c]) out).entry name =
          (runAll printer sha256Hex commands out).entry name := by
  have hlast : runAll printer sha256Hex (commands ++ [c]) out =
      (c.run printer sha256Hex (runAll printer sha256Hex commands out)).state.out := by
    unfold runAll
    rw [List.foldl_append]
    rfl
  have hstart := runAll_removable printer sha256Hex commands hout
  rw [hlast]
  exact ⟨c.contract hstart h, (c.keeps hstart).1⟩

/-- A machine without GPUs on which every step succeeds. -/
def plainMachine : Env where
  nodeIndex := none
  sources := .ok .notRequired
  sourceLines := []
  raw := .ok RawSet.empty
  rawLines := []
  xml := .ok []
  xmlLines := []
  beforeReimport := .ok
  reimport := fun _ => .ok true
  nics := .ok []
  links := none
  metaText := .ok []
  beforeValidate := .ok
  violations := fun _ _ => .ok (some [])
  locate := fun _ _ => []
  replay := fun _ => .ok (.identity [])
  beforeManifest := .ok ⟨⟩
  afterPrintId := .ok ⟨⟩
  parse := fun _ => .object
  elapsed := fun _ => 0
  createFails := false
  readFails := false
  scratchFails := false
  idDirectoryFails := false
  stageFails := fun _ => false
  validateReads := fun _ => true
  searchReads := fun _ => true
  write := fun _ => ⟨true, [], none⟩
  syncFails := fun _ => false

/-- The same machine, where the manifest cannot be synced after its rename. -/
def unsyncedMachine : Env :=
  { plainMachine with syncFails := fun sync => sync matches .after false }

theorem removable_absent : Removable .absent := by
  intro name _ e he
  cases he

/-- A capture over an earlier one, whose record has to be written twice. -/
theorem captures_contract_unsynced :
    (Command.capture unsyncedMachine []).Contract prettyPrinter (fun _ => "00")
        (runAll prettyPrinter (fun _ => "00") [.capture plainMachine []] .absent) ⟨1, none⟩
        (runAll prettyPrinter (fun _ => "00")
          ([.capture plainMachine []] ++ [.capture unsyncedMachine []]) .absent) ∧
      forall name, ¬ reserved name ->
        (runAll prettyPrinter (fun _ => "00")
          ([.capture plainMachine []] ++ [.capture unsyncedMachine []]) .absent).entry name =
          (runAll prettyPrinter (fun _ => "00") [.capture plainMachine []] .absent).entry name :=
  captures_contract [.capture plainMachine []] (.capture unsyncedMachine []) removable_absent
    (Fallible.eq_ok_of_toOption (by decide +kernel))

/-- A machine that can read every manifest takes a directory with one. -/
theorem not_refuses_of_read {out : Out} (h : (out.read? "manifest.json").isSome = true) :
    ¬ Refuses plainMachine out := by
  obtain ⟨text, htext⟩ := Option.isSome_iff_exists.mp h
  cases out with
  | absent => cases h
  | other => cases h
  | directory files =>
      intro hrefuses
      have hnot := hrefuses.2
      unfold previous at hnot
      rw [htext] at hnot
      cases hnot

/-- The directory of a complete capture whose manifest can be neither removed nor replaced. -/
def lockedDirectory : Out :=
  let first := ((Command.capture plainMachine []).run prettyPrinter (fun _ => "00") .absent).state
  match first.out with
  | .directory files => .directory (files.insert "manifest.json"
      ⟨.file (manifestText prettyPrinter first.manifest), true⟩)
  | out => out

set_option maxRecDepth 20000 in
/-- A capture into it fails, and the manifest still says that the capture is complete. -/
theorem captures_contract_locked :
    ((Command.capture plainMachine []).run prettyPrinter (fun _ => "00") lockedDirectory).result =
        .ok ⟨1, none⟩ ∧
      ¬ (Command.capture plainMachine []).Contract prettyPrinter (fun _ => "00") lockedDirectory
        ⟨1, none⟩
        ((Command.capture plainMachine []).run prettyPrinter (fun _ => "00")
          lockedDirectory).state.out := by
  refine ⟨Fallible.eq_ok_of_toOption (by decide +kernel), ?_⟩
  rintro (⟨hrefuses, _⟩ | ⟨_, hcontract⟩)
  · exact not_refuses_of_read (by decide +kernel) hrefuses
  · let first := ((Command.capture plainMachine []).run prettyPrinter (fun _ => "00") .absent).state
    have hcomplete : first.manifest.status = .complete := by decide +kernel
    have hstays : (((Command.capture plainMachine []).run prettyPrinter (fun _ => "00")
        lockedDirectory).state.out.file? "manifest.json") =
          some (manifestText prettyPrinter first.manifest) := by
      with_unfolding_all rfl
    rcases (hcontract.failed (Or.inl rfl)).manifest with hnone | ⟨m, hfile, hstatus, _⟩
    · unfold Out.file? at hstays
      rw [hnone] at hstays
      cases hstays
    · rw [hstays] at hfile
      have hsame := (manifestText_inj prettyPrinter (Option.some.inj hfile)).1
      rw [hcomplete, hstatus] at hsame
      cases hsame

end Commands

end Capture
end Ostia

import Ostia.Dev.Guards

/-!
# Runs that are kept

The pods of a failed run can be kept for debugging.  Whether a run failed is decided twice:
by a look at the steps while the results are collected, and by the guards on everything that
was collected.

An archive is given by its members, and what was extracted of the artifacts by the files
that the guards read.  Both decisions read JSON, which fails on a text that is nested too
deep; how deep that is depends on the caller and is a parameter.
-/

namespace Ostia
namespace Dev

open Foundation
open JsonText
open Text

namespace Kept

variable {F : Type} [FloatText F]

/-- What the two decisions take from Python: that of the guards, the texts whose nesting is too
deep to be read, in a look at the steps and when they are extracted, and the text of an error. -/
structure Python (F : Type) extends Guards.Python F where
  tooDeepToLook : String -> Bool
  tooDeep : String -> Bool
  decodeErrorText : String -> String

/-!
## What is collected
-/

/-- What two readers make of the bytes of a file: its text, and the text that is read as JSON,
which can have another encoding. -/
structure Bytes where
  text : Content
  json : Except Exn String

/-- A member of an archive, and what reading it gives. -/
structure Member where
  name : String
  isFile : Bool
  data : Except Exn Bytes

/-- The members of an archive, if it is one. -/
abbrev Archive := Except Exn (List Member)

/-- What the extraction left of the artifacts. -/
structure Artifacts where
  junits : List (String × String)
  summaryText : Option String

/-- What was copied out of one pod. -/
structure Collected where
  subdir : String
  control : Archive
  artifacts : Except Exn Artifacts

/-!
## The look at the steps
-/

def tarError : Exn := .other "TarError"

def stopIteration : Exn := .other "StopIteration"

def recursionError : Exn := .other "RecursionError"

/-- The value that a text is read as. -/
def loadsWithin (tooDeep : String -> Bool) (text : String) : Except Exn (Value F) :=
  if tooDeep text then .error recursionError else loads text

/-- An exception that counts as a failure. -/
def caught (e : Exn) : Bool := e.isValueError || e = tarError || e = stopIteration

/-- The first member that ends with steps.json. -/
def look (py : Python F) (control : Archive) : Except Exn (Value F) := do
  let members ← control
  match members.find? fun m => endsWith m.name "steps.json" with
  | none => throw stopIteration
  | some m =>
      let data ← m.data
      let text ← data.json
      loadsWithin py.tooDeepToLook text

/-- Some step ended with another code than 0, and is no report. -/
def anyFailed : List (Value F) -> Except Exn Bool
  | [] => .ok false
  | s :: rest => do
      let code ← s.item "code"
      if !code.differs (.int 0) then anyFailed rest
      else
        let kind ← s.item "kind"
        if !kind.differs (.str "report") then anyFailed rest else pure true

def failed (py : Python F) (control : Archive) : Except Exn Bool :=
  match look py control with
  | .error e => if caught e then .ok true else .error e
  | .ok steps => do
      let state ← steps.get "state"
      if (state.getD .none).differs (.str "done") then pure true
      else anyFailed (← Guards.stepItems steps)

/-- The loop over the pods: once one has failed, no other is looked at. -/
def anyPodFailed (py : Python F) : List Collected -> Except Exn Bool
  | [] => .ok false
  | c :: rest => do
      if ← failed py c.control then pure true else anyPodFailed py rest

/-- A run is marked as kept. -/
def collect (py : Python F) (keep : Nat) (out : List Collected) : Except Exn Bool := do
  let failed ← anyPodFailed py out
  pure (keep != 0 && failed)

/-!
## The verdict
-/

/-- The files that are extracted. -/
def control : List String := ["steps.json", "tests.json", "log.txt", "fingerprint.txt"]

def controlName (m : Member) : String := dropStart (dropStart m.name "./") ".ostia/"

/-- A member replaces the steps that were extracted before it. -/
def extractMember (found : Option Bytes) (m : Member) : Except Exn (Option Bytes) :=
  if !control.contains (controlName m) || !m.isFile then .ok found
  else do
    let data ← m.data
    pure (if controlName m = "steps.json" then some data else found)

def missingSteps (detail : String) : Exn :=
  .ostiaError (violation "the run's steps.json is missing or invalid" [detail]
    "the exit code is decided from steps.json; without it the result is unknown"
    "read log.txt in the results directory; rerun, and check the pod's storage"
    "RFC-0005 §3.4")

def extractControl (py : Python F) (archive : Archive) : Except Exn (Value F) := do
  let members ← archive
  match ← members.foldlM extractMember none with
  | none => throw (missingSteps "steps.json was not in the pod's .ostia directory")
  | some data =>
      let text ← readText (some data.text)
      match (loadsWithin py.tooDeep text : Except Exn (Value F)) with
      | .error .jsonDecodeError => throw (missingSteps ("steps.json does not parse: " ++
          py.decodeErrorText text))
      | .error e => throw e
      | .ok steps =>
          match steps.get "state", steps.get "steps" with
          | .ok (some _), .ok (some _) => pure steps
          | _, _ => throw (missingSteps "steps.json has no state or steps")

/-- The verdict on one rank. -/
def rankVerdict (py : Python F) (ctx : Guards.Context) (c : Collected) :
    Except Exn (Guards.Verdict F) := do
  let steps ← extractControl py c.control
  let artifacts ← c.artifacts
  Guards.evaluate py.toPython { ctx with summaryText := artifacts.summaryText } steps
    artifacts.junits

def pipelineVerdict (py : Python F) (ctx : Guards.Context) (collected : List Collected) :
    Except Exn (Guards.Verdict F) := do
  let perRank ← collected.mapM fun c => do
    let v ← rankVerdict py ctx c
    pure (c.subdir, v)
  pure (Guards.combine py.toPython perRank)

/-- The run is marked as kept exactly when its verdict is not a pass. -/
def KeepsFailed (py : Python F) (ctx : Guards.Context) (keep : Nat)
    (collected : List Collected) : Prop :=
  exists kept, collect py keep collected = .ok kept ∧
    (kept = true <-> ¬ exists v, pipelineVerdict py ctx collected = .ok v ∧ v.passed = true)

/-!
## When the two decisions agree
-/

/-- A step that ended with another code than 0, and is no report. -/
def StepFails (s : Value F) : Prop :=
  exists code kind, s.item "code" = .ok code ∧ code.differs (.int 0) = true ∧
    s.item "kind" = .ok kind ∧ kind.differs (.str "report") = true

/-- The supervisor stopped before the end of the plan, or a step failed. -/
def Shows (steps : Value F) : Prop :=
  (exists s, s ∈ Guards.stops ∧ Guards.field steps "state" = .str s) ∨
    exists ran, Guards.stepItems steps = .ok ran ∧ exists s, s ∈ ran ∧ StepFails s

/-- The steps have codes and kinds as far as a look goes: to the first that failed. -/
def Scannable : List (Value F) -> Prop
  | [] => True
  | s :: rest => (Guards.Harmless s ∧ Scannable rest) ∨ StepFails s

/-- What a look reads is no archive, no JSON or an object, whose steps can be scanned if it is
done. -/
structure Lookable (py : Python F) (archive : Archive) : Prop where
  read : forall e, look py archive = .error e -> caught e = true
  object : forall steps, look py archive = .ok steps -> steps.isDict = true
  scanned : forall steps, look py archive = .ok steps ->
    Guards.field steps "state" = .str "done" ->
      exists ran, Guards.stepItems steps = .ok ran ∧ Scannable ran

/-- The steps show a failure to the look, or are not done. -/
def NotDone (py : Python F) (archive : Archive) : Prop :=
  forall steps, look py archive = .ok steps ->
    Shows steps ∨ Guards.field steps "state" ≠ .str "done"

/-- Up to the first pod whose steps are not done, each can be looked at. -/
def AllLookable (py : Python F) : List Collected -> Prop
  | [] => True
  | c :: rest => Lookable py c.control ∧ (¬ NotDone py c.control -> AllLookable py rest)

/-- What only the guards ask for. -/
structure Later (py : Guards.Python F) (ctx : Guards.Context) (steps : Value F)
    (junits : List (String × String)) (ran : List (Value F)) : Prop where
  oom : ctx.oom = false
  wait : Guards.field steps "code_wait" ≠ .str "timeout"
  kinds : forall s, s ∈ ran -> exists kind, s.item "kind" = .ok kind
  codes : forall s, s ∈ ran -> exists code, s.item "code" = .ok code
  planned : ran.mapM (fun s => s.item "name") = .ok (ctx.planned.map Value.str)
  summary : Guards.summaryOk ctx = true
  tested : forall j, j ∈ junits -> Guards.Tested py ctx.gpuProfile j.2

/-- What the guards find nothing wrong with. -/
def Met (py : Python F) (ctx : Guards.Context) (c : Collected) : Prop :=
  exists steps artifacts ran, extractControl py c.control = .ok steps ∧
    c.artifacts = .ok artifacts ∧ Guards.stepItems steps = .ok ran ∧ ¬ Shows steps ∧
      Later py.toPython { ctx with summaryText := artifacts.summaryText } steps artifacts.junits
        ran

/-- Steps that are done and show no failure to the look. -/
def Quiet (py : Python F) (archive : Archive) : Prop :=
  exists steps, look py archive = .ok steps ∧ Guards.field steps "state" = .str "done" ∧
    ¬ Shows steps

/-- What the guards miss in a rank whose steps are quiet: steps or artifacts that cannot be
extracted, extracted steps that are not those of the look, or something that only the guards
ask for. -/
inductive Missed (py : Python F) (ctx : Guards.Context) (c : Collected) : Prop where
  | steps (h : forall steps, extractControl py c.control ≠ .ok steps)
  | otherSteps {steps : Value F} (hextracted : extractControl py c.control = .ok steps)
      (hlook : look py c.control ≠ .ok steps)
      (h : Shows steps ∨ forall ran, Guards.stepItems steps ≠ .ok ran)
  | artifacts (h : forall artifacts, c.artifacts ≠ .ok artifacts)
  | later {steps : Value F} {artifacts : Artifacts} {ran : List (Value F)}
      (hextracted : extractControl py c.control = .ok steps)
      (hartifacts : c.artifacts = .ok artifacts) (hitems : Guards.stepItems steps = .ok ran)
      (h : ¬ Later py.toPython { ctx with summaryText := artifacts.summaryText } steps
        artifacts.junits ran)

/-- No pod shows a failure to the look, and a rank misses what the guards ask for. -/
structure OnlyGuards (py : Python F) (ctx : Guards.Context) (collected : List Collected) :
    Prop where
  quiet : forall c, c ∈ collected -> Quiet py c.control
  missed : exists c, c ∈ collected ∧ Missed py ctx c

/-- A look at a state that the guards do not know, or at other steps than the extracted ones. -/
inductive Odd (py : Python F) (c : Collected) : Prop where
  | state {steps : Value F} (hlook : look py c.control = .ok steps)
      (h : forall s, s ∈ "done" :: Guards.stops -> Guards.field steps "state" ≠ .str s)
  | otherSteps (hlook : look py c.control ≠ extractControl py c.control)
      (h : NotDone py c.control)

/-- The guards find nothing wrong with any rank, and one is odd to the look. -/
structure OnlyLook (py : Python F) (ctx : Guards.Context) (collected : List Collected) :
    Prop where
  odd : exists c, c ∈ collected ∧ Odd py c
  met : forall c, c ∈ collected -> Met py ctx c

theorem harmless_of_not_stepFails {s : Value F} (hkind : exists kind, s.item "kind" = .ok kind)
    (hcode : exists code, s.item "code" = .ok code) (h : ¬ StepFails s) : Guards.Harmless s := by
  rcases hkind with ⟨kind, hkind⟩
  rcases hcode with ⟨code, hcode⟩
  refine ⟨code, hcode, ?_⟩
  by_cases hzero : code.differs (.int 0) = true
  · by_cases hreport : kind.differs (.str "report") = true
    · exact absurd ⟨code, kind, hcode, hzero, hkind, hreport⟩ h
    · exact Or.inr ⟨kind, hkind, by simpa using hreport⟩
  · exact Or.inl (by simpa using hzero)

theorem not_stepFails_of_harmless {s : Value F} (h : Guards.Harmless s) : ¬ StepFails s := by
  rintro ⟨code, kind, hcode, hzero, hkind, hreport⟩
  rcases h with ⟨code', hcode', h⟩
  rw [hcode] at hcode'
  cases hcode'
  rcases h with h | ⟨kind', hkind', h⟩
  · rw [h] at hzero
    cases hzero
  · rw [hkind] at hkind'
    cases hkind'
    rw [h] at hreport
    cases hreport

/-- What a rank passes on, by what both decisions ask for and what only the guards do. -/
theorem passing_iff {py : Guards.Python F} {ctx : Guards.Context} {steps : Value F}
    {junits : List (String × String)} {ran : List (Value F)} :
    Guards.Passing py ctx steps junits ran <->
      Guards.stepItems steps = .ok ran ∧ ¬ Shows steps ∧ Later py ctx steps junits ran := by
  constructor
  · intro h
    refine ⟨h.items, ?_, ⟨h.oom, h.wait, h.kinds, ?_, h.planned, h.summary, h.tested⟩⟩
    · rintro (⟨s, hs, hstate⟩ | ⟨ran', hran', s, hs, hfails⟩)
      · exact h.state s hs hstate
      · rw [h.items] at hran'
        cases hran'
        exact not_stepFails_of_harmless (h.harmless s hs) hfails
    · intro s hs
      rcases h.harmless s hs with ⟨code, hcode, _⟩
      exact ⟨code, hcode⟩
  · rintro ⟨hitems, hshows, h⟩
    refine ⟨hitems, h.oom, ?_, h.wait, h.kinds, ?_, h.planned, h.summary, h.tested⟩
    · intro s hs hstate
      exact hshows (Or.inl ⟨s, hs, hstate⟩)
    · intro s hs
      refine harmless_of_not_stepFails (h.kinds s hs) (h.codes s hs) ?_
      intro hfails
      exact hshows (Or.inr ⟨ran, hitems, s, hs, hfails⟩)

theorem rankVerdict_passed {py : Python F} {ctx : Guards.Context} {c : Collected} :
    (exists v, rankVerdict py ctx c = .ok v ∧ v.passed = true) <-> Met py ctx c := by
  constructor
  · rintro ⟨v, h, hpassed⟩
    rcases Fallible.bind_eq_ok.mp h with ⟨steps, hsteps, h1⟩
    rcases Fallible.bind_eq_ok.mp h1 with ⟨artifacts, hartifacts, h2⟩
    rcases Guards.evaluate_passed.mp ⟨v, h2, hpassed⟩ with ⟨ran, hran⟩
    rcases passing_iff.mp hran with ⟨hitems, hshows, hlater⟩
    exact ⟨steps, artifacts, ran, hsteps, hartifacts, hitems, hshows, hlater⟩
  · rintro ⟨steps, artifacts, ran, hsteps, hartifacts, hitems, hshows, hlater⟩
    rcases Guards.evaluate_passed.mpr ⟨ran, passing_iff.mpr ⟨hitems, hshows, hlater⟩⟩ with
      ⟨v, hv, hpassed⟩
    exact ⟨v, Fallible.bind_eq_ok.mpr ⟨steps, hsteps,
      Fallible.bind_eq_ok.mpr ⟨artifacts, hartifacts, hv⟩⟩, hpassed⟩

/-- The run passes exactly when the guards find nothing wrong with any rank. -/
theorem pipelineVerdict_passed {py : Python F} {ctx : Guards.Context}
    {collected : List Collected} :
    (exists v, pipelineVerdict py ctx collected = .ok v ∧ v.passed = true) <->
      forall c, c ∈ collected -> Met py ctx c := by
  constructor
  · rintro ⟨v, h, hpassed⟩ c hc
    rcases Fallible.bind_eq_ok.mp h with ⟨perRank, hperRank, h1⟩
    cases h1
    rw [Guards.combine_passed] at hpassed
    rcases Fallible.forall₂_mem_left (Fallible.mapM_eq_ok.mp hperRank) hc with ⟨e, he, hrank⟩
    rcases Fallible.bind_eq_ok.mp hrank with ⟨v, hv, h2⟩
    cases h2
    exact rankVerdict_passed.mp ⟨v, hv, hpassed _ he⟩
  · intro h
    have hall : forall c, c ∈ collected -> exists e : String × Guards.Verdict F,
        (do let v ← rankVerdict py ctx c; pure (c.subdir, v)) = Except.ok e := by
      intro c hc
      rcases rankVerdict_passed.mpr (h c hc) with ⟨v, hv, _⟩
      exact ⟨(c.subdir, v), Fallible.bind_eq_ok.mpr ⟨v, hv, rfl⟩⟩
    rcases Fallible.exists_mapM_eq_ok hall with ⟨perRank, hperRank⟩
    refine ⟨Guards.combine py.toPython perRank,
      Fallible.bind_eq_ok.mpr ⟨perRank, hperRank, rfl⟩, ?_⟩
    rw [Guards.combine_passed]
    intro e he
    rcases Fallible.forall₂_mem_right (Fallible.mapM_eq_ok.mp hperRank) he with ⟨c, hc, hrank⟩
    rcases rankVerdict_passed.mpr (h c hc) with ⟨v, hv, hpassed⟩
    rcases Fallible.bind_eq_ok.mp hrank with ⟨v', hv', h1⟩
    rw [hv] at hv'
    cases hv'
    cases h1
    exact hpassed

theorem anyFailed_eq_ok {ran : List (Value F)} {b : Bool} :
    anyFailed ran = .ok b <-> Scannable ran ∧ (b = true <-> exists s, s ∈ ran ∧ StepFails s) := by
  induction ran with
  | nil => cases b <;> simp [anyFailed, Scannable]
  | cons s rest ih =>
      by_cases hharmless : Guards.Harmless s
      · have hnot := not_stepFails_of_harmless hharmless
        have hstep : anyFailed (s :: rest) = anyFailed rest := by
          rcases hharmless with ⟨code, hcode, h⟩
          rw [anyFailed, hcode, Fallible.ok_bind]
          split_ifs with hzero
          · rfl
          · rcases h with h | ⟨kind, hkind, h⟩
            · exact absurd (by simpa using h) hzero
            · rw [hkind, Fallible.ok_bind, if_pos (by simpa using h)]
        rw [hstep, ih]
        simp [Scannable, hharmless, hnot]
      · by_cases hfails : StepFails s
        · have hstep : anyFailed (s :: rest) = .ok true := by
            rcases hfails with ⟨code, kind, hcode, hzero, hkind, hreport⟩
            rw [anyFailed, hcode, Fallible.ok_bind, if_neg (by simpa using hzero), hkind,
              Fallible.ok_bind, if_neg (by simpa using hreport)]
            rfl
          rw [hstep]
          cases b <;> simp [Scannable, hfails]
        · have hscan : ¬ Scannable (s :: rest) := by
            rintro (⟨h, _⟩ | h)
            · exact hharmless h
            · exact hfails h
          refine iff_of_false ?_ fun h => hscan h.1
          intro h
          rw [anyFailed] at h
          rcases Fallible.bind_eq_ok.mp h with ⟨code, hcode, h1⟩
          split_ifs at h1 with hzero
          · exact hharmless ⟨code, hcode, Or.inl (by simpa using hzero)⟩
          · rcases Fallible.bind_eq_ok.mp h1 with ⟨kind, hkind, h2⟩
            split_ifs at h2 with hreport
            · exact hharmless ⟨code, hcode, Or.inr ⟨kind, hkind, by simpa using hreport⟩⟩
            · exact hfails ⟨code, kind, hcode, by simpa using hzero, hkind, by simpa using hreport⟩

/-- Steps that are done show a failure when one of them failed. -/
theorem shows_iff {steps : Value F} {ran : List (Value F)}
    (hdone : Guards.field steps "state" = .str "done") (hitems : Guards.stepItems steps = .ok ran) :
    Shows steps <-> exists s, s ∈ ran ∧ StepFails s := by
  constructor
  · rintro (⟨s, hs, hstate⟩ | ⟨ran', hran', h⟩)
    · rw [hdone] at hstate
      injection hstate with hstate
      subst hstate
      simp [Guards.stops] at hs
    · rw [hitems] at hran'
      cases hran'
      exact h
  · intro h
    exact Or.inr ⟨ran, hitems, h⟩

/-- The look returns where it can be done, and tells of steps that are not done. -/
theorem failed_eq_ok {py : Python F} {archive : Archive} {b : Bool} :
    failed py archive = .ok b <-> Lookable py archive ∧ (b = true <-> NotDone py archive) := by
  cases hlook : look py archive with
  | error e =>
      have hlookable : Lookable py archive <-> caught e = true := by
        constructor
        · intro h
          exact h.read e hlook
        · intro h
          constructor <;> simp [hlook, h]
      have hnot : NotDone py archive := by
        intro steps hsteps
        rw [hlook] at hsteps
        cases hsteps
      rw [hlookable, failed, hlook]
      by_cases hcaught : caught e = true
      · cases b <;> simp [hcaught, hnot]
      · simp [hcaught]
  | ok steps =>
      have hlookable : Lookable py archive <-> steps.isDict = true ∧
          (Guards.field steps "state" = .str "done" ->
            exists ran, Guards.stepItems steps = .ok ran ∧ Scannable ran) := by
        constructor
        · intro h
          exact ⟨h.object steps hlook, h.scanned steps hlook⟩
        · rintro ⟨hdict, hscan⟩
          constructor <;> simp [hlook, hdict]
          exact hscan
      have hnot : NotDone py archive <->
          Shows steps ∨ Guards.field steps "state" ≠ .str "done" := by
        unfold NotDone
        simp [hlook]
      rw [hlookable, hnot, failed, hlook]
      by_cases hdict : steps.isDict = true
      · rcases Guards.get_of_isDict hdict "state" with ⟨state, hstate, hfield⟩
        simp only [hstate, Fallible.ok_bind, hdict, true_and]
        by_cases hdone : Guards.field steps "state" = .str "done"
        · rw [if_neg (fun h => Guards.differs_str.mp h (hfield ▸ hdone)), Fallible.bind_eq_ok]
          simp only [anyFailed_eq_ok, hdone, ne_eq, not_true_eq_false, or_false,
            forall_true_left]
          constructor
          · rintro ⟨ran, hitems, hscan, hb⟩
            rw [shows_iff hdone hitems]
            exact ⟨⟨ran, hitems, hscan⟩, hb⟩
          · rintro ⟨⟨ran, hitems, hscan⟩, hb⟩
            rw [shows_iff hdone hitems] at hb
            exact ⟨ran, hitems, hscan, hb⟩
        · rw [if_pos (Guards.differs_str.mpr (hfield ▸ hdone))]
          cases b <;> simp [hdone, pure, Except.pure]
      · refine iff_of_false ?_ fun h => hdict h.1.1
        intro h
        rcases Fallible.bind_eq_ok.mp h with ⟨state, hstate, _⟩
        cases steps with
        | dict fs => exact hdict rfl
        | _ => cases hstate

theorem anyPodFailed_eq_ok {py : Python F} {collected : List Collected} {b : Bool} :
    anyPodFailed py collected = .ok b <->
      AllLookable py collected ∧
        (b = true <-> exists c, c ∈ collected ∧ NotDone py c.control) := by
  induction collected with
  | nil => cases b <;> simp [anyPodFailed, AllLookable]
  | cons c rest ih =>
      rw [anyPodFailed, Fallible.bind_eq_ok, AllLookable]
      constructor
      · rintro ⟨bad, hbad, h⟩
        rw [failed_eq_ok] at hbad
        split_ifs at h with htrue
        · cases h
          have hnot := hbad.2.mp htrue
          exact ⟨⟨hbad.1, fun h => absurd hnot h⟩, iff_of_true rfl ⟨c, List.mem_cons_self, hnot⟩⟩
        · have hnot : ¬ NotDone py c.control := fun h => htrue (hbad.2.mpr h)
          rw [ih] at h
          refine ⟨⟨hbad.1, fun _ => h.1⟩, ?_⟩
          rw [h.2]
          simp [hnot]
      · rintro ⟨⟨hlook, hrest⟩, hb⟩
        by_cases hnot : NotDone py c.control
        · refine ⟨true, failed_eq_ok.mpr ⟨hlook, iff_of_true rfl hnot⟩, ?_⟩
          rw [hb.mpr ⟨c, List.mem_cons_self, hnot⟩]
          rfl
        · refine ⟨false, failed_eq_ok.mpr ⟨hlook, iff_of_false Bool.false_ne_true hnot⟩, ?_⟩
          rw [if_neg Bool.false_ne_true, ih]
          refine ⟨hrest hnot, ?_⟩
          rw [hb]
          simp [hnot]

/-- Both decisions by what they ask for. -/
theorem keepsFailed_iff {py : Python F} {ctx : Guards.Context} {collected : List Collected}
    {keep : Nat} (hkeep : 0 < keep) :
    KeepsFailed py ctx keep collected <->
      AllLookable py collected ∧ ((exists c, c ∈ collected ∧ NotDone py c.control) <->
        exists c, c ∈ collected ∧ ¬ Met py ctx c) := by
  have hverdict : (¬ exists v, pipelineVerdict py ctx collected = .ok v ∧ v.passed = true) <->
      exists c, c ∈ collected ∧ ¬ Met py ctx c := by
    rw [pipelineVerdict_passed]
    push Not
    rfl
  have hcollect : forall kept, collect py keep collected = .ok kept <->
      anyPodFailed py collected = .ok kept := by
    intro kept
    have hne : (keep != 0) = true := by simpa using Nat.pos_iff_ne_zero.mp hkeep
    unfold collect
    rw [Fallible.bind_eq_ok, hne]
    simp [pure, Except.pure]
  unfold KeepsFailed
  rw [hverdict]
  simp only [hcollect, anyPodFailed_eq_ok]
  constructor
  · rintro ⟨kept, ⟨hlook, hkept⟩, h⟩
    exact ⟨hlook, hkept.symm.trans h⟩
  · rintro ⟨hlook, h⟩
    by_cases hnot : exists c, c ∈ collected ∧ NotDone py c.control
    · exact ⟨true, ⟨hlook, iff_of_true rfl hnot⟩, iff_of_true rfl (h.mp hnot)⟩
    · exact ⟨false, ⟨hlook, iff_of_false Bool.false_ne_true hnot⟩,
        iff_of_false Bool.false_ne_true (fun h' => hnot (h.mpr h'))⟩

theorem quiet_iff {py : Python F} {archive : Archive} :
    Quiet py archive <-> ¬ NotDone py archive := by
  unfold Quiet NotDone
  push Not
  exact exists_congr fun steps => and_congr_right fun _ => and_comm

/-- When no pod shows a failure, every one of them is looked at. -/
theorem AllLookable.of_quiet {py : Python F} {collected : List Collected}
    (h : AllLookable py collected) (hquiet : forall c, c ∈ collected -> Quiet py c.control) :
    forall c, c ∈ collected -> Lookable py c.control := by
  induction collected with
  | nil =>
      intro c hc
      cases hc
  | cons c rest ih =>
      rw [List.forall_mem_cons] at hquiet ⊢
      exact ⟨h.1, ih (h.2 (quiet_iff.mp hquiet.1)) hquiet.2⟩

/-- A quiet rank has a guard that is not met exactly if the guards miss something in it. -/
theorem missed_iff {py : Python F} {ctx : Guards.Context} {c : Collected}
    (hlook : Lookable py c.control) (hquiet : Quiet py c.control) :
    Missed py ctx c <-> ¬ Met py ctx c := by
  constructor
  · rintro hmissed ⟨steps, artifacts, ran, hsteps, hartifacts, hitems, hshows, hlater⟩
    cases hmissed with
    | steps h => exact h steps hsteps
    | otherSteps hextracted _ h =>
        rw [hsteps] at hextracted
        cases hextracted
        rcases h with h | h
        · exact hshows h
        · exact h ran hitems
    | artifacts h => exact h artifacts hartifacts
    | later hextracted hartifacts' hitems' h =>
        rw [hsteps] at hextracted
        cases hextracted
        rw [hartifacts] at hartifacts'
        cases hartifacts'
        rw [hitems] at hitems'
        cases hitems'
        exact h hlater
  · intro hmet
    by_cases hsteps : exists steps, extractControl py c.control = .ok steps
    · rcases hsteps with ⟨steps, hsteps⟩
      by_cases hshows : Shows steps ∨ forall ran, Guards.stepItems steps ≠ .ok ran
      · refine Missed.otherSteps hsteps ?_ hshows
        intro hsame
        rcases hquiet with ⟨steps', hsteps', hdone, hquiet⟩
        rw [hsame] at hsteps'
        cases hsteps'
        rcases hlook.scanned steps hsame hdone with ⟨ran, hitems, _⟩
        rcases hshows with h | h
        · exact hquiet h
        · exact h ran hitems
      · push Not at hshows
        rcases hshows with ⟨hshows, ran, hitems⟩
        by_cases hartifacts : exists artifacts, c.artifacts = .ok artifacts
        · rcases hartifacts with ⟨artifacts, hartifacts⟩
          refine Missed.later hsteps hartifacts hitems ?_
          intro hlater
          exact hmet ⟨steps, artifacts, ran, hsteps, hartifacts, hitems, hshows, hlater⟩
        · exact Missed.artifacts fun artifacts h => hartifacts ⟨artifacts, h⟩
    · exact Missed.steps fun steps h => hsteps ⟨steps, h⟩

/-- Steps that the guards find nothing wrong with are odd to the look when they are not done. -/
theorem odd_iff {py : Python F} {ctx : Guards.Context} {c : Collected} (hmet : Met py ctx c) :
    Odd py c <-> NotDone py c.control := by
  rcases hmet with ⟨steps, artifacts, ran, hsteps, _, _, hshows, _⟩
  constructor
  · intro hodd
    cases hodd with
    | state hlook h =>
        intro steps' hsteps'
        rw [hlook] at hsteps'
        cases hsteps'
        exact Or.inr (h "done" List.mem_cons_self)
    | otherSteps _ h => exact h
  · intro hnot
    by_cases hsame : look py c.control = .ok steps
    · refine Odd.state hsame ?_
      intro s hs hstate
      rcases List.mem_cons.mp hs with rfl | hstop
      · exact (hnot steps hsame).elim hshows fun h => h hstate
      · exact hshows (Or.inl ⟨s, hstop, hstate⟩)
    · exact Odd.otherSteps (fun h => hsame (h.trans hsteps)) hnot

/-- A run is kept exactly when it fails, if and only if every look returns and the run is of
neither kind that only one of the two decisions sees. -/
theorem keeps_failed (py : Python F) (ctx : Guards.Context) (collected : List Collected)
    {keep : Nat} (hkeep : 0 < keep) :
    KeepsFailed py ctx keep collected <->
      AllLookable py collected ∧ ¬ OnlyGuards py ctx collected ∧ ¬ OnlyLook py ctx collected := by
  rw [keepsFailed_iff hkeep]
  refine and_congr_right fun hlook => ?_
  have hguards : OnlyGuards py ctx collected <->
      (¬ exists c, c ∈ collected ∧ NotDone py c.control) ∧
        exists c, c ∈ collected ∧ ¬ Met py ctx c := by
    constructor
    · rintro ⟨hquiet, c, hc, hmissed⟩
      have hlooked := hlook.of_quiet hquiet c hc
      exact ⟨fun ⟨c', hc', h⟩ => quiet_iff.mp (hquiet c' hc') h, c, hc,
        (missed_iff hlooked (hquiet c hc)).mp hmissed⟩
    · rintro ⟨hnone, c, hc, hmet⟩
      have hquiet : forall c, c ∈ collected -> Quiet py c.control :=
        fun c' hc' => quiet_iff.mpr fun h => hnone ⟨c', hc', h⟩
      exact ⟨hquiet, c, hc, (missed_iff (hlook.of_quiet hquiet c hc) (hquiet c hc)).mpr hmet⟩
  have hodd : OnlyLook py ctx collected <->
      (exists c, c ∈ collected ∧ NotDone py c.control) ∧
        ¬ exists c, c ∈ collected ∧ ¬ Met py ctx c := by
    constructor
    · rintro ⟨⟨c, hc, hodd⟩, hmet⟩
      exact ⟨⟨c, hc, (odd_iff (hmet c hc)).mp hodd⟩, fun ⟨c', hc', h⟩ => h (hmet c' hc')⟩
    · rintro ⟨⟨c, hc, hnot⟩, hnone⟩
      have hmet : forall c, c ∈ collected -> Met py ctx c :=
        fun c' hc' => by_contra fun h => hnone ⟨c', hc', h⟩
      exact ⟨⟨c, hc, (odd_iff (hmet c hc)).mpr hnot⟩, hmet⟩
  rw [hguards, hodd]
  by_cases hnot : exists c, c ∈ collected ∧ NotDone py c.control
  · simp [hnot]
  · simp [hnot]

/-!
## Two runs
-/

/-- The steps of a run of one command. -/
def oneStep (code : Int) : Value Half :=
  .dict [("schema", .int 1), ("state", .str "done"), ("code_wait", .str "ok"),
    ("exit", .int code), ("steps", .list [.dict [("name", .str "test"), ("kind", .str "command"),
      ("code", .int code), ("seconds", .int 1)]])]

def stepsFile (steps : Value Half) : Bytes := ⟨.utf8 (dumps steps), .ok (dumps steps)⟩

/-- What is collected of a run of one command, whose report holds no test. -/
def collectedOf (subdir : String) (steps : Value Half) : Collected where
  subdir := subdir
  control := .ok [⟨"steps.json", true, .ok (stepsFile steps)⟩]
  artifacts := .ok ⟨[("junit.xml", "<testsuite/>")], none⟩

def noTests : Python Half where
  str v := match v with
    | .str s => s
    | .int n => toString n
    | _ => ""
  parseJunit _ := .ok []
  parseErrorText _ := ""
  tooDeepToLook _ := false
  tooDeep _ := false
  decodeErrorText _ := ""

def oneCommand : Guards.Context := ⟨false, ["test"], false, "4Gi", "cpu", none, none⟩

theorem look_steps (py : Python F) (data : Bytes) :
    look py (.ok [⟨"steps.json", true, .ok data⟩]) =
      data.json >>= loadsWithin py.tooDeepToLook := by
  have hname : endsWith "steps.json" "steps.json" = true := by decide
  simp only [look, Fallible.ok_bind, List.find?_cons, hname]

theorem extractControl_steps {py : Python F} {data : Bytes} {text : String} {steps v w : Value F}
    (htext : data.text = .utf8 text) (hload : loadsWithin py.tooDeep text = .ok steps)
    (hstate : steps.get "state" = .ok (some v)) (hsteps : steps.get "steps" = .ok (some w)) :
    extractControl py (.ok [⟨"steps.json", true, .ok data⟩]) = .ok steps := by
  have hname : forall (isFile : Bool) (d : Except Exn Bytes),
      controlName ⟨"steps.json", isFile, d⟩ = "steps.json" := by
    intro isFile d
    have hdrop : dropStart (dropStart "steps.json" "./") ".ostia/" = "steps.json" := by
      decide
    exact hdrop
  have hmember : extractMember none ⟨"steps.json", true, .ok data⟩ = .ok (some data) := by
    have hcontrol : control.contains "steps.json" = true := by decide
    simp only [extractMember, hname, hcontrol, Fallible.ok_bind, if_true]
    rfl
  have hfold : [(⟨"steps.json", true, .ok data⟩ : Member)].foldlM extractMember none =
      .ok (some data) := by
    rw [List.foldlM_cons, hmember]
    rfl
  simp only [extractControl, Fallible.ok_bind, hfold, htext, readText, hload, hstate, hsteps]
  rfl

theorem oneStep_sound {code : Int} (h : code = 0 ∨ code = 1) : (oneStep code).Sound := by
  rcases h with rfl | rfl
  · simp [oneStep, Value.Sound, Value.SoundFields, Value.SoundItems, Value.maxDigits]
    decide
  · simp [oneStep, Value.Sound, Value.SoundFields, Value.SoundItems, Value.maxDigits]
    decide

theorem look_collectedOf (subdir : String) {steps : Value Half} (h : steps.Sound) :
    look noTests (collectedOf subdir steps).control = .ok steps := by
  unfold collectedOf
  rw [look_steps]
  exact loads_dumps h

theorem extractControl_collectedOf (subdir : String) {code : Int} (h : code = 0 ∨ code = 1) :
    extractControl noTests (collectedOf subdir (oneStep code)).control = .ok (oneStep code) :=
  extractControl_steps rfl (loads_dumps (oneStep_sound h)) rfl rfl

theorem lookable_oneStep (subdir : String) {code : Int} (h : code = 0 ∨ code = 1) :
    Lookable noTests (collectedOf subdir (oneStep code)).control := by
  have hlook := look_collectedOf subdir (oneStep_sound h)
  constructor
  · intro e he
    rw [hlook] at he
    cases he
  · intro steps hsteps
    rw [hlook] at hsteps
    cases hsteps
    rfl
  · intro steps hsteps _
    rw [hlook] at hsteps
    cases hsteps
    refine ⟨_, rfl, ?_⟩
    rcases h with rfl | rfl
    · exact Or.inl ⟨⟨_, rfl, Or.inl (by decide)⟩, True.intro⟩
    · exact Or.inr ⟨_, _, rfl, by decide, rfl, by decide⟩

theorem shows_oneStep : Shows (oneStep 1) := by
  refine Or.inr ⟨_, rfl, _, List.mem_singleton_self _, _, _, rfl, ?_, rfl, ?_⟩
  · decide
  · decide

theorem not_shows_oneStep : ¬ Shows (oneStep 0) := by
  intro h
  rcases (shows_iff rfl rfl).mp h with ⟨s, hs, hfails⟩
  rw [List.mem_singleton.mp hs] at hfails
  exact not_stepFails_of_harmless ⟨_, rfl, Or.inl (by decide)⟩ hfails

/-- Two pods, and a command that failed in the second: both are kept. -/
theorem keeps_failed_command : KeepsFailed noTests oneCommand 1800
    [collectedOf "rank-0" (oneStep 0), collectedOf "rank-1" (oneStep 1)] := by
  have hkeep : 0 < 1800 := by norm_num
  have hlast : collectedOf "rank-1" (oneStep 1) ∈
      [collectedOf "rank-0" (oneStep 0), collectedOf "rank-1" (oneStep 1)] :=
    List.mem_cons_of_mem _ List.mem_cons_self
  refine (keeps_failed noTests oneCommand _ hkeep).mpr ⟨?_, ?_, ?_⟩
  · exact ⟨lookable_oneStep "rank-0" (Or.inl rfl),
      fun _ => ⟨lookable_oneStep "rank-1" (Or.inr rfl), fun _ => True.intro⟩⟩
  · intro h
    rcases h.quiet _ hlast with ⟨steps, hsteps, _, hquiet⟩
    rw [look_collectedOf "rank-1" (oneStep_sound (Or.inr rfl))] at hsteps
    cases hsteps
    exact hquiet shows_oneStep
  · intro h
    rcases h.met _ hlast with ⟨steps, _, _, hsteps, _, _, hshows, _⟩
    rw [extractControl_collectedOf "rank-1" (Or.inr rfl)] at hsteps
    cases hsteps
    exact hshows shows_oneStep

/-- A command that succeeded and left a report without tests: the run fails, and the pod is not
kept. -/
theorem empty_report_not_kept :
    ¬ KeepsFailed noTests oneCommand 1800 [collectedOf "" (oneStep 0)] := by
  have hkeep : 0 < 1800 := by norm_num
  rw [keepsFailed_iff hkeep]
  rintro ⟨_, h⟩
  have hmet : ¬ Met noTests oneCommand (collectedOf "" (oneStep 0)) := by
    rintro ⟨_, artifacts, _, _, hartifacts, _, _, hlater⟩
    cases hartifacts
    rcases hlater.tested _ (List.mem_singleton_self _) with ⟨cases, hcases, hne, _⟩
    cases hcases
    exact hne rfl
  rcases h.mpr ⟨_, List.mem_singleton_self _, hmet⟩ with ⟨c, hc, hdone⟩
  rw [List.mem_singleton.mp hc] at hdone
  rcases hdone (oneStep 0) (look_collectedOf "" (oneStep_sound (Or.inl rfl))) with hshows | hstate
  · exact not_shows_oneStep hshows
  · exact hstate rfl

end Kept
end Dev
end Ostia

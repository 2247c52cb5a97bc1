import Ostia.Dev.PairFile

/-!
# The guards of a run

The verdict on a run is computed from what was collected: the steps that the supervisor
wrote down, the test reports and the summary of the build.  The steps come from a pod, so
they are any JSON value.

Reading a test report and the texts of odd values are parameters.
-/

namespace Ostia
namespace Dev

open Foundation
open JsonText
open Text

namespace Guards

variable {F : Type} [FloatText F]

/-- One test of a report. -/
structure Case where
  name : String
  labels : List String
  skipped : Bool
  failed : Bool
deriving DecidableEq, Repr

/-- What the guards take from Python: texts, and the tests of a junit file or the text of what
is wrong with it. -/
structure Python (F : Type) where
  str : Value F -> String
  parseJunit : String -> Except Exn (List Case)
  parseErrorText : String -> String

/-- The error of a file that is no XML. -/
def parseError : Exn := .other "ParseError"

structure Verdict (F : Type) where
  testCode : Nat := 0
  infra : Bool := false
  failingStep : Option (Value F) := none
  message : String := ""
  reports : List (Value F × Value F) := []

/-- A verdict that is neither a failed test nor an infrastructure failure. -/
def Verdict.passed (v : Verdict F) : Bool := v.testCode == 0 && !v.infra

/-- What a verdict is computed from, besides the steps and the reports. -/
structure Context where
  gpuProfile : Bool
  planned : List String
  oom : Bool
  memory : String
  profile : String
  expectSummary : Option String
  summaryText : Option String

/-- An entry of a dictionary that is set. -/
def setReport (name code : Value F) : List (Value F × Value F) -> List (Value F × Value F)
  | [] => [(name, code)]
  | e :: rest => if e.1.eq name then (e.1, code) :: rest else e :: setReport name code rest

def addReport (reports : List (Value F × Value F)) (s : Value F) :
    Except Exn (List (Value F × Value F)) := do
  if (← s.item "kind").differs (.str "report") then pure reports
  else
    let name ← s.item "name"
    let code ← s.item "code"
    match name with
    | .list _ => throw .typeError
    | .dict _ => throw .typeError
    | _ => pure (setReport name code reports)

/-- The reports among the steps, by their names. -/
def reportsOf (ran : List (Value F)) : Except Exn (List (Value F × Value F)) :=
  ran.foldlM addReport []

/-- The name of the last step. -/
def lastName (ran : List (Value F)) : Except Exn (Option (Value F)) :=
  match ran.getLast? with
  | none => .ok none
  | some s => do
      let name ← s.item "name"
      pure (some name)

/-- An empty or missing name is shown as None. -/
def shown (py : Python F) (v : Option (Value F)) : String := py.str (v.getD .none)

def infraVerdict (step : Option (Value F)) (message : String) : Verdict F :=
  { infra := true, failingStep := step, message := message }

def oomText (ctx : Context) (last : String) : String :=
  violation ("step " ++ last ++ " was killed for running out of memory")
    ["memory limit: " ++ ctx.memory]
    ("a pod gets the memory its profile requests; an OOM kill is an infrastructure " ++
      "failure, not a test result")
    ("raise memory in [remote.k8s.profiles." ++ ctx.profile ++
      "], or lower the build parallelism")
    "RFC-0005 §3.2"

def missingSummaryText (expected : String) : String :=
  violation "the configure summary does not show the GPU architecture the suite expects"
    ["expected: " ++ expected]
    "the dev preset picks native when it detects the GPU (RFC-0005 §4.9)"
    "check the fingerprint and the profile's env (PATH, LD_LIBRARY_PATH)"
    "RFC-0005 §4.9"

def noTestsText (name : String) : String :=
  violation ("ctest found no tests (" ++ name ++ " holds zero testcases)") []
    "a run that tested nothing fails (RFC-0005 §3.2)"
    "check the ctest arguments (-L, -R) and that the build directory has tests"
    "RFC-0005 §3.2"

def skippedText (name : String) (tests : List String) : String :=
  violation ("gpu-labelled tests were skipped or not run on a GPU profile (" ++ name ++ ")")
    ["tests: " ++ ", ".intercalate tests]
    "on a GPU node a skipped GPU test means the GPU wasn't usable (RFC-0005 §3.2)"
    "read the test output in log.txt and the fingerprint"
    "RFC-0005 §3.2"

/-- The first step that failed and is no report. -/
def firstFailure (py : Python F) : List (Value F) -> Except Exn (Option (Verdict F))
  | [] => .ok none
  | s :: rest => do
      let code ← s.item "code"
      if !code.differs (.int 0) then firstFailure py rest
      else
        let kind ← s.item "kind"
        if !kind.differs (.str "report") then firstFailure py rest
        else
          let name ← s.item "name"
          if kind.eq (.str "preflight") ∨ kind.eq (.str "install") then
            pure (some (infraVerdict (some name) (py.str kind ++ " step " ++ py.str name ++
              " failed (exit " ++ py.str code ++ ")")))
          else
            pure (some { testCode := 1, failingStep := some name
                         message := "step " ++ py.str name ++ " failed (exit " ++ py.str code
                           ++ ")" })

/-- The names of the steps are the planned ones, in order. -/
def asPlanned (names : List (Value F)) (planned : List String) : Bool :=
  Value.eqItems names (planned.map Value.str)

/-- The names as members of a set. -/
def nameSet (names : List (Value F)) : Except Exn (List (Value F)) :=
  names.mapM fun n =>
    match n with
    | .list _ => .error .typeError
    | .dict _ => .error .typeError
    | _ => .ok n

/-- The last command, or the last step. -/
def commandName (last : Option (Value F)) : List (Value F) -> Except Exn (Option (Value F))
  | [] => .ok last
  | s :: rest => do
      if (← s.item "kind").differs (.str "command") then commandName last rest
      else
        let name ← s.item "name"
        pure (some name)

/-- What is wrong with a test report, if anything. -/
def junitVerdict (py : Python F) (gpuProfile : Bool) (command : Option (Value F))
    (name text : String) : Except Exn (Option (Verdict F)) :=
  match py.parseJunit text with
  | .error e =>
      if e = parseError then
        .ok (some { testCode := 1, failingStep := command
                    message := name ++ " is not valid junit: " ++ py.parseErrorText text })
      else .error e
  | .ok [] =>
      .ok (some { testCode := 1, failingStep := command, message := noTestsText name })
  | .ok cases =>
      let skipped := cases.filter fun c => c.skipped && c.labels.contains "gpu"
      if gpuProfile ∧ skipped ≠ [] then
        .ok (some (infraVerdict command (skippedText name (skipped.map Case.name))))
      else .ok none

/-- The first test report that something is wrong with. -/
def junitsVerdict (py : Python F) (gpuProfile : Bool) (command : Option (Value F)) :
    List (String × String) -> Except Exn (Option (Verdict F))
  | [] => .ok none
  | j :: rest => do
      match ← junitVerdict py gpuProfile command j.1 j.2 with
      | some v => pure (some v)
      | none => junitsVerdict py gpuProfile command rest

/-- The summary has the line that the suite expects. -/
def summaryOk (ctx : Context) : Bool :=
  match ctx.expectSummary with
  | none => true
  | some "" => true
  | some line => (splitlines (ctx.summaryText.getD "")).contains line

/-- The test reports in the order of their names. -/
def sortedJunits (junits : List (String × String)) : List (String × String) :=
  junits.mergeSort fun a b => decide (a.1 ≤ b.1)

/-- The guards on the steps: how the supervisor stopped, and the first failure. -/
def stepsVerdict (py : Python F) (ctx : Context) (steps : Value F) (ran : List (Value F))
    (last : Option (Value F)) : Except Exn (Option (Verdict F)) := do
  if ctx.oom then
    pure (some (infraVerdict last (oomText ctx (shown py last))))
  else
    let state ← steps.get "state"
    let wait ← steps.get "code_wait"
    let is (v : Option (Value F)) (s : String) : Bool := (v.getD .none).eq (.str s)
    if is state "code_wait_timeout" || is wait "timeout" then
      pure (some (infraVerdict none "the code never arrived in the pod within the code wait"))
    else if is state "timeout" then
      pure (some (infraVerdict last ("the pipeline hit its --timeout in step " ++
        shown py last ++ " (timeout)")))
    else if is state "terminated" then
      pure (some (infraVerdict last ("the run was terminated during step " ++ shown py last)))
    else firstFailure py ran

/-- The guards on what the steps left: the plan, the summary and the test reports. -/
def outcomeVerdict (py : Python F) (ctx : Context) (ran : List (Value F))
    (last : Option (Value F)) (junits : List (String × String)) :
    Except Exn (Option (Verdict F)) := do
  let names ← ran.mapM fun s => s.item "name"
  if !asPlanned names ctx.planned then
    let found ← if ctx.planned = [] then pure [] else nameSet names
    let missing := ctx.planned.filter fun n => !found.any fun m => m.eq (.str n)
    pure (some (infraVerdict last ("the supervisor stopped before steps " ++
      ", ".intercalate missing)))
  else if !summaryOk ctx then
    pure (some (infraVerdict (some (.str "configure"))
      (missingSummaryText (ctx.expectSummary.getD ""))))
  else
    let command ← commandName last ran.reverse
    junitsVerdict py ctx.gpuProfile command (sortedJunits junits)

def evaluate (py : Python F) (ctx : Context) (steps : Value F) (junits : List (String × String)) :
    Except Exn (Verdict F) := do
  let ran ← PairFile.iterate ((← steps.get "steps").getD (.list []))
  let reports ← reportsOf ran
  let last ← lastName ran
  match ← stepsVerdict py ctx steps ran last with
  | some v => pure { v with reports := reports }
  | none =>
      match ← outcomeVerdict py ctx ran last junits with
      | some v => pure { v with reports := reports }
      | none => pure { reports := reports }

/-!
## Two ranks
-/

/-- A verdict that names its rank. -/
def tagged (py : Python F) (sub : String) (v : Verdict F) : Verdict F :=
  { testCode := v.testCode
    infra := v.infra
    failingStep := match v.failingStep with
      | some step => if step.truthy then some (.str (sub ++ "/" ++ py.str step)) else none
      | none => none
    message := if v.message = "" then "" else sub ++ ": " ++ v.message }

/-- The first of the verdicts with the largest test code. -/
def worstTest : List (Verdict F) -> Verdict F
  | [] => {}
  | v :: rest => rest.foldl (fun best w => if best.testCode < w.testCode then w else best) v

/-- One verdict for a run from each rank's. -/
def combine (py : Python F) (verdicts : List (String × Verdict F)) : Verdict F :=
  match verdicts with
  | [(_, v)] => v
  | _ =>
      let infra := (verdicts.filter fun e => e.2.infra).map fun e => tagged py e.1 e.2
      let failed := (verdicts.filter fun e => e.2.testCode != 0).map fun e => tagged py e.1 e.2
      let out := match infra with
        | v :: _ => v
        | [] => worstTest failed
      { out with reports := verdicts.flatMap fun e =>
          e.2.reports.map fun r => (.str (e.1 ++ "/" ++ py.str r.1), r.2) }

section

omit [FloatText F]

theorem passed_iff {v : Verdict F} : v.passed = true <-> v.testCode = 0 ∧ v.infra = false := by
  unfold Verdict.passed
  simp

/-- The verdict that is picked among failed tests is one of them. -/
theorem worstTest_mem {vs : List (Verdict F)} (h : vs ≠ []) : worstTest vs ∈ vs := by
  cases vs with
  | nil => exact absurd rfl h
  | cons v rest =>
      have hfold : forall (rest : List (Verdict F)) (best : Verdict F),
          (rest.foldl (fun best w => if best.testCode < w.testCode then w else best) best) = best ∨
            (rest.foldl (fun best w => if best.testCode < w.testCode then w else best) best) ∈
              rest := by
        intro rest
        induction rest with
        | nil =>
            intro best
            exact Or.inl rfl
        | cons w rest ih =>
            intro best
            rw [List.foldl_cons]
            rcases ih (if best.testCode < w.testCode then w else best) with h | h
            · rw [h]
              split_ifs
              · exact Or.inr List.mem_cons_self
              · exact Or.inl rfl
            · exact Or.inr (List.mem_cons_of_mem w h)
      rw [worstTest]
      rcases hfold rest v with h | h
      · rw [h]
        exact List.mem_cons_self
      · exact List.mem_cons_of_mem v h

end

/-- A run passes exactly when every rank does. -/
theorem combine_passed (py : Python F) (verdicts : List (String × Verdict F)) :
    (combine py verdicts).passed = true <-> forall e, e ∈ verdicts -> e.2.passed = true := by
  unfold combine
  split
  · rename_i sub v
    simp
  · simp only [passed_iff]
    cases hinfra : (verdicts.filter fun e => e.2.infra) with
    | cons e rest =>
        have he : e ∈ verdicts.filter fun e => e.2.infra := by
          rw [hinfra]
          exact List.mem_cons_self
        rw [List.mem_filter] at he
        refine iff_of_false ?_ ?_
        · rintro ⟨_, h⟩
          rw [List.map_cons] at h
          exact absurd (he.2.symm.trans h) (by decide)
        · intro h
          exact absurd (he.2.symm.trans (h e he.1).2) (by decide)
    | nil =>
        have hno : forall e, e ∈ verdicts -> e.2.infra = false := by
          intro e he
          by_contra hne
          have hmem : e ∈ verdicts.filter fun e => e.2.infra :=
            List.mem_filter.mpr ⟨he, by simpa using hne⟩
          rw [hinfra] at hmem
          cases hmem
        rw [List.map_nil]
        cases hfailed : (verdicts.filter fun e => e.2.testCode != 0) with
        | nil =>
            refine iff_of_true ⟨rfl, rfl⟩ ?_
            intro e he
            refine ⟨?_, hno e he⟩
            by_contra hne
            have hmem : e ∈ verdicts.filter fun e => e.2.testCode != 0 :=
              List.mem_filter.mpr ⟨he, by simpa using hne⟩
            rw [hfailed] at hmem
            cases hmem
        | cons e0 rest =>
            have hworst : worstTest ((e0 :: rest).map fun e => tagged py e.1 e.2) ∈
                (e0 :: rest).map fun e => tagged py e.1 e.2 := worstTest_mem (by simp)
            rcases List.mem_map.mp hworst with ⟨e, he, heq⟩
            rw [← hfailed, List.mem_filter] at he
            have hne : e.2.testCode ≠ 0 := by simpa using he.2
            refine iff_of_false ?_ ?_
            · rintro ⟨h, _⟩
              change (worstTest _).testCode = 0 at h
              rw [← heq] at h
              exact hne h
            · intro h
              exact hne (h e he.1).1

/-!
## A pass
-/

/-- The value under a key, or None. -/
def field (v : Value F) (key : String) : Value F :=
  match v.get key with
  | .ok (some w) => w
  | _ => .none

/-- The states in which the supervisor stopped before the end of the plan. -/
def stops : List String := ["code_wait_timeout", "timeout", "terminated"]

/-- A step that a run can have without failing. -/
def Harmless (s : Value F) : Prop :=
  exists code, s.item "code" = .ok code ∧ (code.differs (.int 0) = false ∨
    exists kind, s.item "kind" = .ok kind ∧ kind.differs (.str "report") = false)

/-- A report with tests, none of which is a test of the GPU that was skipped where there is
one. -/
def Tested (py : Python F) (gpuProfile : Bool) (text : String) : Prop :=
  exists cases, py.parseJunit text = .ok cases ∧ cases ≠ [] ∧
    (gpuProfile = true -> forall c, c ∈ cases -> c.skipped = true -> "gpu" ∉ c.labels)

/-- The items of the steps. -/
def stepItems (steps : Value F) : Except Exn (List (Value F)) := do
  PairFile.iterate ((← steps.get "steps").getD (.list []))

/-- What a rank passes on. -/
structure Passing (py : Python F) (ctx : Context) (steps : Value F)
    (junits : List (String × String)) (ran : List (Value F)) : Prop where
  items : stepItems steps = .ok ran
  oom : ctx.oom = false
  state : forall s, s ∈ stops -> field steps "state" ≠ .str s
  wait : field steps "code_wait" ≠ .str "timeout"
  kinds : forall s, s ∈ ran -> exists kind, s.item "kind" = .ok kind
  harmless : forall s, s ∈ ran -> Harmless s
  planned : ran.mapM (fun s => s.item "name") = .ok (ctx.planned.map Value.str)
  summary : summaryOk ctx = true
  tested : forall j, j ∈ junits -> Tested py ctx.gpuProfile j.2

theorem eq_str {v : Value F} {s : String} : v.eq (.str s) = true <-> v = .str s := by
  cases v <;> simp [Value.eq, Value.eqNumber, Value.number?]

theorem differs_str {v : Value F} {s : String} : v.differs (.str s) = true <-> v ≠ .str s := by
  cases v <;> simp [Value.differs, Value.eq, Value.eqNumber, Value.number?]

theorem asPlanned_iff {names : List (Value F)} {planned : List String} :
    asPlanned names planned = true <-> names = planned.map Value.str := by
  unfold asPlanned
  induction names generalizing planned with
  | nil => cases planned <;> simp [Value.eqItems]
  | cons n names ih =>
      cases planned with
      | nil => simp [Value.eqItems]
      | cons p planned =>
          rw [List.map_cons, Value.eqItems, Bool.and_eq_true, eq_str, ih, List.cons.injEq]

theorem firstFailure_none {py : Python F} {ran : List (Value F)} :
    firstFailure py ran = .ok none <-> forall s, s ∈ ran -> Harmless s := by
  induction ran with
  | nil => simp [firstFailure]
  | cons s rest ih =>
      rw [firstFailure, Fallible.bind_eq_ok, List.forall_mem_cons]
      constructor
      · rintro ⟨code, hcode, h⟩
        split_ifs at h with hzero
        · exact ⟨⟨code, hcode, Or.inl (by simpa using hzero)⟩, ih.mp h⟩
        · rcases Fallible.bind_eq_ok.mp h with ⟨kind, hkind, h'⟩
          split_ifs at h' with hreport hfatal
          · exact ⟨⟨code, hcode, Or.inr ⟨kind, hkind, by simpa using hreport⟩⟩, ih.mp h'⟩
          · rcases Fallible.bind_eq_ok.mp h' with ⟨name, _, h''⟩
            cases h''
          · rcases Fallible.bind_eq_ok.mp h' with ⟨name, _, h''⟩
            cases h''
      · rintro ⟨⟨code, hcode, hharmless⟩, hrest⟩
        refine ⟨code, hcode, ?_⟩
        by_cases hzero : code.differs (.int 0) = false
        · rw [if_pos (by simpa using hzero)]
          exact ih.mpr hrest
        · rcases hharmless with h | ⟨kind, hkind, hreport⟩
          · exact absurd h hzero
          · rw [if_neg (by simpa using hzero)]
            refine Fallible.bind_eq_ok.mpr ⟨kind, hkind, ?_⟩
            rw [if_pos (by simpa using hreport)]
            exact ih.mpr hrest

theorem firstFailure_not_passed {py : Python F} {ran : List (Value F)} {v : Verdict F}
    (h : firstFailure py ran = .ok (some v)) : v.passed = false := by
  induction ran with
  | nil => cases h
  | cons s rest ih =>
      rw [firstFailure] at h
      rcases Fallible.bind_eq_ok.mp h with ⟨code, _, h1⟩
      split_ifs at h1
      · exact ih h1
      · rcases Fallible.bind_eq_ok.mp h1 with ⟨kind, _, h2⟩
        split_ifs at h2
        · exact ih h2
        · rcases Fallible.bind_eq_ok.mp h2 with ⟨name, _, h3⟩
          cases h3
          rfl
        · rcases Fallible.bind_eq_ok.mp h2 with ⟨name, _, h3⟩
          cases h3
          rfl

omit [FloatText F] in
theorem junitVerdict_none {py : Python F} {gpuProfile : Bool} {command : Option (Value F)}
    {name text : String} :
    junitVerdict py gpuProfile command name text = .ok none <-> Tested py gpuProfile text := by
  unfold junitVerdict Tested
  cases hparse : py.parseJunit text with
  | error e =>
      constructor
      · intro h
        dsimp only at h
        split_ifs at h
        cases h
      · rintro ⟨_, h, _⟩
        cases h
  | ok cases =>
      cases cases with
      | nil => simp
      | cons c rest => simp

omit [FloatText F] in
theorem junitVerdict_not_passed {py : Python F} {gpuProfile : Bool} {command : Option (Value F)}
    {name text : String} {v : Verdict F}
    (h : junitVerdict py gpuProfile command name text = .ok (some v)) : v.passed = false := by
  unfold junitVerdict at h
  split at h
  · split_ifs at h
    cases h
    rfl
  · cases h
    rfl
  · dsimp only at h
    split_ifs at h
    · cases h
      rfl
    · cases h

omit [FloatText F] in
theorem junitsVerdict_none {py : Python F} {gpuProfile : Bool} {command : Option (Value F)}
    {junits : List (String × String)} :
    junitsVerdict py gpuProfile command junits = .ok none <->
      forall j, j ∈ junits -> Tested py gpuProfile j.2 := by
  induction junits with
  | nil => simp [junitsVerdict]
  | cons j rest ih =>
      have hone : junitVerdict py gpuProfile command j.1 j.2 = .ok none <->
          Tested py gpuProfile j.2 := junitVerdict_none
      rw [junitsVerdict, Fallible.bind_eq_ok, List.forall_mem_cons, ← ih, ← hone]
      constructor
      · rintro ⟨v, hv, h⟩
        cases v with
        | none => exact ⟨hv, h⟩
        | some v => cases h
      · rintro ⟨hj, hrest⟩
        exact ⟨none, hj, hrest⟩

omit [FloatText F] in
theorem junitsVerdict_not_passed {py : Python F} {gpuProfile : Bool} {command : Option (Value F)}
    {junits : List (String × String)} {v : Verdict F}
    (h : junitsVerdict py gpuProfile command junits = .ok (some v)) : v.passed = false := by
  induction junits with
  | nil => cases h
  | cons j rest ih =>
      rw [junitsVerdict] at h
      rcases Fallible.bind_eq_ok.mp h with ⟨v', hv', h'⟩
      cases v' with
      | none => exact ih h'
      | some v' =>
          cases h'
          exact junitVerdict_not_passed hv'

theorem commandName_eq_ok {last : Option (Value F)} {ran : List (Value F)}
    (hkinds : forall s, s ∈ ran -> exists kind, s.item "kind" = .ok kind)
    (hnames : forall s, s ∈ ran -> exists name, s.item "name" = .ok name) :
    exists command, commandName last ran = .ok command := by
  induction ran with
  | nil => exact ⟨last, rfl⟩
  | cons s rest ih =>
      rw [List.forall_mem_cons] at hkinds hnames
      rcases hkinds.1 with ⟨kind, hkind⟩
      rcases hnames.1 with ⟨name, hname⟩
      simp only [commandName, hkind, hname, Fallible.ok_bind]
      split_ifs
      · exact ih hkinds.2 hnames.2
      · exact ⟨some name, rfl⟩

theorem reportsOf_eq_ok {ran : List (Value F)}
    (hkinds : forall s, s ∈ ran -> exists kind, s.item "kind" = .ok kind)
    (hcodes : forall s, s ∈ ran -> exists code, s.item "code" = .ok code)
    (hnames : forall s, s ∈ ran -> exists name, s.item "name" = .ok (.str name)) :
    exists reports, reportsOf ran = .ok reports := by
  refine Fallible.exists_foldlM_eq_ok ?_ []
  intro s hs reports
  rcases hkinds s hs with ⟨kind, hkind⟩
  rcases hcodes s hs with ⟨code, hcode⟩
  rcases hnames s hs with ⟨name, hname⟩
  simp only [addReport, hkind, hcode, hname, Fallible.ok_bind]
  split_ifs
  · exact ⟨reports, rfl⟩
  · exact ⟨setReport (.str name) code reports, rfl⟩

theorem kinds_of_reportsOf {ran : List (Value F)} {reports : List (Value F × Value F)}
    (h : reportsOf ran = .ok reports) :
    forall s, s ∈ ran -> exists kind, s.item "kind" = .ok kind := by
  have hall : forall (ran : List (Value F)) (before reports : List (Value F × Value F)),
      ran.foldlM addReport before = .ok reports ->
        forall s, s ∈ ran -> exists kind, s.item "kind" = .ok kind := by
    intro ran
    induction ran with
    | nil =>
        intro _ _ _ s hs
        cases hs
    | cons s0 rest ih =>
        intro before reports h
        rw [List.foldlM_cons, Fallible.bind_eq_ok] at h
        rcases h with ⟨next, hnext, hrest⟩
        rw [List.forall_mem_cons]
        constructor
        · unfold addReport at hnext
          rcases Fallible.bind_eq_ok.mp hnext with ⟨kind, hkind, _⟩
          exact ⟨kind, hkind⟩
        · exact ih next reports hrest
  exact hall ran [] reports h

omit [FloatText F] in
theorem get_of_isDict {v : Value F} (hdict : v.isDict = true) (key : String) :
    exists o, v.get key = .ok o ∧ field v key = o.getD .none := by
  cases v with
  | dict fs =>
      refine ⟨Value.lookup key fs, rfl, ?_⟩
      simp only [field, Value.get]
      cases Value.lookup key fs <;> rfl
  | _ => cases hdict

/-- The guards on the steps find nothing. -/
theorem stepsVerdict_none {py : Python F} {ctx : Context} {steps : Value F}
    {ran : List (Value F)} {last : Option (Value F)} (hdict : steps.isDict = true) :
    stepsVerdict py ctx steps ran last = .ok none <->
      ctx.oom = false ∧ (forall s, s ∈ stops -> field steps "state" ≠ .str s) ∧
      field steps "code_wait" ≠ .str "timeout" ∧ forall s, s ∈ ran -> Harmless s := by
  rcases get_of_isDict hdict "state" with ⟨state, hstate, hfield⟩
  rcases get_of_isDict hdict "code_wait" with ⟨wait, hwait, hfield'⟩
  have hfailure : firstFailure py ran = .ok none <-> forall s, s ∈ ran -> Harmless s :=
    firstFailure_none
  rw [hfield, hfield', ← hfailure]
  simp only [stepsVerdict, hstate, hwait, Fallible.ok_bind, stops, List.forall_mem_cons,
    List.not_mem_nil, false_implies, implies_true, and_true, Bool.or_eq_true, eq_str]
  split_ifs with hoom hcode htimeout hterm
  · simp [pure, Except.pure, hoom]
  · rw [Bool.or_eq_true, eq_str, eq_str] at hcode
    rcases hcode with h | h <;> simp [pure, Except.pure, h]
  · simp [pure, Except.pure, eq_str.mp htimeout]
  · simp [pure, Except.pure, eq_str.mp hterm]
  · rw [Bool.or_eq_true, eq_str, eq_str, not_or] at hcode
    rw [eq_str] at htimeout hterm
    simp [hoom, hcode, htimeout, hterm]

theorem stepsVerdict_not_passed {py : Python F} {ctx : Context} {steps : Value F}
    {ran : List (Value F)} {last : Option (Value F)} {v : Verdict F}
    (h : stepsVerdict py ctx steps ran last = .ok (some v)) : v.passed = false := by
  unfold stepsVerdict at h
  split_ifs at h
  · cases h
    rfl
  · rcases Fallible.bind_eq_ok.mp h with ⟨state, _, h1⟩
    rcases Fallible.bind_eq_ok.mp h1 with ⟨wait, _, h2⟩
    dsimp only at h2
    split_ifs at h2
    · cases h2
      rfl
    · cases h2
      rfl
    · cases h2
      rfl
    · exact firstFailure_not_passed h2

/-- The guards on what the steps left find nothing. -/
theorem outcomeVerdict_none {py : Python F} {ctx : Context} {ran : List (Value F)}
    {last : Option (Value F)} {junits : List (String × String)}
    (hkinds : forall s, s ∈ ran -> exists kind, s.item "kind" = .ok kind) :
    outcomeVerdict py ctx ran last junits = .ok none <->
      ran.mapM (fun s => s.item "name") = .ok (ctx.planned.map Value.str) ∧
      summaryOk ctx = true ∧ forall j, j ∈ junits -> Tested py ctx.gpuProfile j.2 := by
  have hjunits : (forall j, j ∈ junits -> Tested py ctx.gpuProfile j.2) <->
      forall j, j ∈ sortedJunits junits -> Tested py ctx.gpuProfile j.2 := by
    unfold sortedJunits
    simp only [List.mem_mergeSort]
  rw [hjunits]
  unfold outcomeVerdict
  constructor
  · intro h
    rcases Fallible.bind_eq_ok.mp h with ⟨names, hnames, h1⟩
    split_ifs at h1 with hplanned hnone hsummary
    · rcases Fallible.bind_eq_ok.mp h1 with ⟨_, _, h2⟩
      cases h2
    · rcases Fallible.bind_eq_ok.mp h1 with ⟨_, _, h2⟩
      cases h2
    · cases h1
    · rcases Fallible.bind_eq_ok.mp h1 with ⟨command, _, h2⟩
      rw [← asPlanned_iff.mp (by simpa using hplanned)]
      exact ⟨hnames, by simpa using hsummary, junitsVerdict_none.mp h2⟩
  · rintro ⟨hnames, hsummary, htested⟩
    have hreverse : forall s, s ∈ ran.reverse -> exists name, s.item "name" = .ok name := by
      intro s hs
      rw [Fallible.mapM_eq_ok] at hnames
      rcases Fallible.forall₂_mem_left hnames (List.mem_reverse.mp hs) with ⟨name, _, hname⟩
      exact ⟨name, hname⟩
    have hexists : exists command, commandName last ran.reverse = .ok command :=
      commandName_eq_ok (fun s hs => hkinds s (List.mem_reverse.mp hs)) hreverse
    rcases hexists with ⟨command, hcommand⟩
    simp only [hnames, Fallible.ok_bind, asPlanned_iff.mpr rfl, hsummary, Bool.not_true,
      Bool.false_eq_true, if_false, hcommand]
    exact junitsVerdict_none.mpr htested

theorem outcomeVerdict_not_passed {py : Python F} {ctx : Context} {ran : List (Value F)}
    {last : Option (Value F)} {junits : List (String × String)} {v : Verdict F}
    (h : outcomeVerdict py ctx ran last junits = .ok (some v)) : v.passed = false := by
  unfold outcomeVerdict at h
  rcases Fallible.bind_eq_ok.mp h with ⟨names, _, h1⟩
  split_ifs at h1
  · rcases Fallible.bind_eq_ok.mp h1 with ⟨_, _, h2⟩
    cases h2
    rfl
  · rcases Fallible.bind_eq_ok.mp h1 with ⟨_, _, h2⟩
    cases h2
    rfl
  · cases h1
    rfl
  · rcases Fallible.bind_eq_ok.mp h1 with ⟨command, _, h2⟩
    exact junitsVerdict_not_passed h2

/-- A rank passes exactly on what its verdict is a pass on. -/
theorem evaluate_passed {py : Python F} {ctx : Context} {steps : Value F}
    {junits : List (String × String)} :
    (exists v, evaluate py ctx steps junits = .ok v ∧ v.passed = true) <->
      exists ran, Passing py ctx steps junits ran := by
  constructor
  · rintro ⟨v, h, hpassed⟩
    unfold evaluate at h
    rcases Fallible.bind_eq_ok.mp h with ⟨o, ho, h1⟩
    rcases Fallible.bind_eq_ok.mp h1 with ⟨ran, hran, h2⟩
    rcases Fallible.bind_eq_ok.mp h2 with ⟨reports, hreports, h3⟩
    rcases Fallible.bind_eq_ok.mp h3 with ⟨last, _, h4⟩
    rcases Fallible.bind_eq_ok.mp h4 with ⟨found, hsteps, h5⟩
    have hkinds := kinds_of_reportsOf hreports
    have hdict : steps.isDict = true := by
      cases steps with
      | dict _ => rfl
      | _ => cases ho
    cases found with
    | some w =>
        cases h5
        have hw : w.passed = true := hpassed
        rw [stepsVerdict_not_passed hsteps] at hw
        cases hw
    | none =>
        rcases Fallible.bind_eq_ok.mp h5 with ⟨left, hleft, h6⟩
        cases left with
        | some w =>
            cases h6
            have hw : w.passed = true := hpassed
            rw [outcomeVerdict_not_passed hleft] at hw
            cases hw
        | none =>
            rcases (stepsVerdict_none hdict).mp hsteps with ⟨hoom, hstate, hwait, hharmless⟩
            rcases (outcomeVerdict_none hkinds).mp hleft with ⟨hplanned, hsummary, htested⟩
            exact ⟨ran, ⟨Fallible.bind_eq_ok.mpr ⟨o, ho, hran⟩, hoom, hstate, hwait, hkinds,
              hharmless, hplanned, hsummary, htested⟩⟩
  · rintro ⟨ran, h⟩
    rcases Fallible.bind_eq_ok.mp h.items with ⟨o, ho, hran⟩
    have hdict : steps.isDict = true := by
      cases steps with
      | dict _ => rfl
      | _ => cases ho
    have hnames : forall s, s ∈ ran -> exists name, s.item "name" = .ok (.str name) := by
      intro s hs
      rcases Fallible.forall₂_mem_left (Fallible.mapM_eq_ok.mp h.planned) hs with
        ⟨name, hname, hitem⟩
      rcases List.mem_map.mp hname with ⟨text, _, rfl⟩
      exact ⟨text, hitem⟩
    have hcodes : forall s, s ∈ ran -> exists code, s.item "code" = .ok code := by
      intro s hs
      rcases h.harmless s hs with ⟨code, hcode, _⟩
      exact ⟨code, hcode⟩
    rcases reportsOf_eq_ok h.kinds hcodes hnames with ⟨reports, hreports⟩
    have hlast : exists last, lastName ran = .ok last := by
      unfold lastName
      cases hlast : ran.getLast? with
      | none => exact ⟨none, rfl⟩
      | some s =>
          rcases hnames s (List.mem_of_getLast? hlast) with ⟨name, hname⟩
          exact ⟨some (.str name), Fallible.bind_eq_ok.mpr ⟨_, hname, rfl⟩⟩
    rcases hlast with ⟨last, hlast⟩
    have hsteps : stepsVerdict py ctx steps ran last = .ok none :=
      (stepsVerdict_none hdict).mpr ⟨h.oom, h.state, h.wait, h.harmless⟩
    have hleft : outcomeVerdict py ctx ran last junits = .ok none :=
      (outcomeVerdict_none h.kinds).mpr ⟨h.planned, h.summary, h.tested⟩
    refine ⟨{ reports := reports }, ?_, rfl⟩
    simp only [evaluate, ho, hran, hreports, hlast, hsteps, hleft, Fallible.ok_bind]
    rfl

end Guards
end Dev
end Ostia

import Ostia.Dev.Bench
import Ostia.Dev.Capabilities
import Ostia.Dev.Gate

/-!
# The required gate

The gate asks for a machine that supports every workload, for a record and for the transport
evidence of each, compares the records with a baseline, and then checks that the baseline was
recorded on the topologies of the records.  The comparison skips a case that it cannot compare.

The rules for the evidence of a workload are a parameter.
-/

namespace Ostia
namespace Dev

open Foundation
open JsonText
open Text

namespace Gate

variable {F : Type} [FloatText F]

/-!
## Reading records
-/

/-- A record of a line, validated. -/
def loadLine (py : Bench.Python F) (line : String) : Except Exn (Value F) :=
  match loads line with
  | .error .jsonDecodeError => .error (.schemaError "malformed JSON")
  | .error e => .error e
  | .ok record => do
      Bench.validate py record
      pure record

/-- Every record of a JSON Lines file, validated. -/
def load (py : Bench.Python F) (file : Option Content) : Except Exn (List (Value F)) := do
  let text ← readText file
  (PairFile.recordLines text).mapM (loadLine py)

/-- A baseline file: a JSON document with its records, or JSON Lines. -/
structure Baseline where
  isJson : Bool
  file : Option Content

def loadBaseline (py : Bench.Python F) (baseline : Baseline) : Except Exn (List (Value F)) :=
  if baseline.isJson then do
    let text ← readText baseline.file
    let data ← loads text
    let records ← PairFile.iterate (← data.item "records")
    records.mapM fun r => do
      Bench.validate py r
      pure r
  else load py baseline.file

/-!
## Evidence
-/

/-- The evidence files of a run, by their names, and the rules that judge one. -/
structure Evidence (F : Type) where
  file : String -> Option Content
  check : Value F -> Except Exn (List String)

/-- What the comparison finds wrong with the evidence of a benchmark. -/
def Evidence.problem (py : Bench.Python F) (evidence : Evidence F) (bench : Value F) :
    Except Exn String :=
  let name := py.str bench ++ ".json"
  match readText (evidence.file name) >>= loads with
  | .error .osError => .ok ("no transport evidence (" ++ name ++ ")")
  | .error .jsonDecodeError => .ok ("no transport evidence (" ++ name ++ ")")
  | .error e => .error e
  | .ok ev => do
      let problems ← evidence.check ev
      pure ("; ".intercalate problems)

/-- The lines about the evidence of one workload. -/
def evidenceLines (evidence : Evidence F) (w : String) : Except Exn (List String) :=
  match evidence.file (w ++ ".json") with
  | none => .ok ["error: no evidence for " ++ w]
  | some content => do
      let text ← readText (some content)
      let ev ← loads text
      match ← evidence.check ev with
      | [] => pure []
      | problems =>
          pure (("error: " ++ w ++ ": the run does not show the transport it tests") ::
            problems.map fun p => "  " ++ p)

def evidenceProblems (evidence : Evidence F) (workloads : List String) :
    Except Exn (List String) := do
  let lines ← workloads.mapM (evidenceLines evidence)
  match lines.flatten with
  | [] => pure []
  | found => pure (found ++
      ["  rule: a gate run that cannot show its transport fails\n  see: RFC-0001 §6.4"])

/-- A value as a member of a set. -/
def member (v : Value F) : Except Exn (Value F) :=
  if Bench.hashable v then .ok v else .error .typeError

/-- The workloads without a record. -/
def missingRecords (F : Type) [FloatText F] (workloads : List String)
    (results : Option Content) : Except Exn (List String) := do
  let text ← PairFile.resultsText results
  let benches : List (Value F) ← (PairFile.recordLines text).mapM fun line => do
    let r ← loads line
    member ((← r.get "bench").getD .none)
  pure ((workloads.filter fun w => !benches.any fun b => b.eq (.str w)).map fun w =>
    "error: no benchmark records for " ++ w)

/-!
## Comparison
-/

/-- The errors that the comparison reports as invalid input. -/
def reported : Exn -> Bool
  | .schemaError _ | .osError | .jsonDecodeError => true
  | _ => false

/-- The records that are compared; the candidate's file may not be blank. -/
def compareInputs (py : Bench.Python F) (baseline : Baseline) (results : Option Content) :
    Except Exn (List (Value F) × List (Value F)) := do
  let base ← loadBaseline py baseline
  match results with
  | none => throw (.schemaError "missing or empty result file")
  | some content =>
      let text ← readText (some content)
      if isBlank text then throw (.schemaError "missing or empty result file")
      else
        let candidate ← load py results
        pure (base, candidate)

/-- The exit code of the comparison with --require-pass: regressions, invalid and
inconclusive cases fail it. -/
def compareMain (py : Bench.Python F) (evidence : Evidence F) (baseline : Baseline)
    (results : Option Content) : Except Exn Int :=
  match compareInputs py baseline results with
  | .error e => if reported e then .ok 1 else .error e
  | .ok (base, candidate) => do
      let found ← Bench.compareRuns py base candidate none (some (evidence.problem py))
      if found.any fun r =>
          r.outcome = .regression ∨ r.outcome = .invalid ∨ r.outcome = .inconclusive then pure 1
      else pure 0

/-- The topologies of the baseline's records. -/
def recordedTopologies (py : Bench.Python F) (baseline : Baseline) :
    Except Exn (List (Value F)) := do
  let records ← loadBaseline py baseline
  records.mapM fun r => do
    let compat ← r.item "compat"
    member ((← compat.get "topology").getD .none)

/-- The same, none when they cannot be read; the comparison reports that itself. -/
def baselineTopologies (py : Bench.Python F) (baseline : Baseline) :
    Except Exn (Option (List (Value F))) :=
  match recordedTopologies py baseline with
  | .ok ts => .ok (some ts)
  | .error e =>
      if e = .osError ∨ e.isValueError ∨ e = .keyError ∨ e = .typeError then .ok none
      else .error e

/-- The topology of a record; a compat that is no object counts as none. -/
def candidateTopology (line : String) : Except Exn (Value F) := do
  let r ← loads line
  match (← r.get "compat").getD .none with
  | .dict compat => member ((Value.lookup "topology" compat).getD .none)
  | _ => pure .none

def candidateTopologies (F : Type) [FloatText F] (results : Option Content) :
    Except Exn (List (Value F)) := do
  let text ← readText results
  (PairFile.recordLines text).mapM candidateTopology

/-- The topology as it is shown; only texts can be put in order. -/
def shownTopology : Value F -> Except Exn String
  | .none => .ok "null"
  | .str s => .ok s
  | _ => .error .typeError

/-- The topologies of the records that the baseline was not recorded on. -/
def topologyMismatch (py : Bench.Python F) (baseline : Baseline) (results : Option Content) :
    Except Exn (List String) := do
  match ← baselineTopologies py baseline with
  | none => pure []
  | some known =>
      let found ← candidateTopologies F results
      match found.filter fun t => !known.any fun k => k.eq t with
      | [] => pure []
      | unknown => do
          let shown ← unknown.mapM shownTopology
          pure [
            "error: the candidate's topology (" ++ ", ".intercalate (shown.dedup.mergeSort) ++
              ") is not one the baseline was recorded on",
            "  rule: a required gate compares only records whose topology the baseline has"]

/-!
## The gate
-/

/-- What the gate is given: the setup and its machine, the run, its files and the tools. -/
structure Run (F : Type) where
  setup : Capabilities.Setup
  machine : Capabilities.Machine
  /-- Whether the machine is a k8s machine with a profile that fits. -/
  checkMachine : Except Exn Unit
  rdmaNics : String
  run : Except Exn Int
  files : Files
  evidence : Evidence F
  baseline : Option Baseline
  python : Bench.Python F
  pairPython : PairFile.Python F
  disk : Disk
  tools : Tools

def Run.workloads (r : Run F) : List String := r.setup.gate.map Capabilities.Workload.name

/-- The files after the stamp, where the setup asks for it. -/
def stamped (r : Run F) : Files × Except Exn Unit :=
  if r.machine.nodes = 2 ∧ .topoCapture ∈ r.setup.alsoRun then
    match stampPair r.pairPython r.disk r.tools r.rdmaNics r.files with
    | (files, .ok _) => (files, .ok ())
    | (files, .error e) => (files, .error e)
  else (r.files, .ok ())

/-- The checks after the run and the stamp. -/
def judge (r : Run F) (results : Option Content) : Except Exn Int := do
  let missing ← missingRecords F r.workloads results
  let problems ← evidenceProblems r.evidence r.workloads
  if missing ++ problems ≠ [] then pure 1
  else
    match r.baseline with
    | none => pure 0
    | some baseline => do
        let code ← compareMain r.python r.evidence baseline results
        if code ≠ 0 then pure code
        else
          let mismatch ← topologyMismatch r.python baseline results
          if mismatch ≠ [] then pure 1 else pure 0

def gate (r : Run F) : Files × Except Exn Int :=
  if Capabilities.unsupported r.setup r.machine ≠ [] then (r.files, .ok 1)
  else
    match r.checkMachine with
    | .error e => (r.files, .error e)
    | .ok () =>
        match r.run with
        | .error e => (r.files, .error e)
        | .ok code =>
            if code ≠ 0 then (r.files, .ok code)
            else
              match stamped r with
              | (files, .error e) => (files, .error e)
              | (files, .ok ()) => (files, judge r files.results)

/-!
## What a gate that passes has compared
-/

/-- The one record of a case was compared with a baseline record of the same measurement, and
passed. -/
def CasePassed (py : Bench.Python F) (evidence : Evidence F) (baseline : List (Value F))
    (bases : List (Bench.CaseKey F × Value F)) (e : Bench.CaseKey F × List (Value F)) : Prop :=
  exists cand base result, e.2 = [cand] ∧ base ∈ baseline ∧ Bench.SameMeasurement base cand ∧
    Bench.compareOne py (some (evidence.problem py)) bases e.1 e.2 = .ok result ∧
    result.outcome = .pass

/-- A case that has a baseline record with the compatibility fields of its records. -/
def CaseComparable (bases : List (Bench.CaseKey F × Value F))
    (e : Bench.CaseKey F × List (Value F)) : Prop :=
  exists base c, Bench.findCase e.1 bases = some base ∧ Bench.compatKey base = .ok c ∧
    forall cand, cand ∈ e.2 -> exists c', Bench.compatKey cand = .ok c' ∧
      Bench.sameCompat c c' = true

/-- The inputs can be read, and every case of the candidate has a property. -/
def ForCases (py : Bench.Python F) (baseline : Baseline) (results : Option Content)
    (P : List (Value F) -> List (Bench.CaseKey F × Value F) ->
      Bench.CaseKey F × List (Value F) -> Prop) : Prop :=
  exists base candidate cases bases,
    compareInputs py baseline results = .ok (base, candidate) ∧
    Bench.byCase candidate = .ok cases ∧ Bench.baseByCase base = .ok bases ∧
    forall e, e ∈ cases -> P base bases e

/-- Every case of the candidate has one record, was compared and passed. -/
def Compared (py : Bench.Python F) (evidence : Evidence F) (baseline : Baseline)
    (results : Option Content) : Prop :=
  ForCases py baseline results fun base bases e => CasePassed py evidence base bases e

/-- Every case of the candidate has a baseline record that it can be compared with. -/
def Comparable (py : Bench.Python F) (baseline : Baseline) (results : Option Content) : Prop :=
  ForCases py baseline results fun _ bases e => CaseComparable bases e

theorem forCases_iff {py : Bench.Python F} {baseline : Baseline} {results : Option Content}
    {P : List (Value F) -> List (Bench.CaseKey F × Value F) ->
      Bench.CaseKey F × List (Value F) -> Prop}
    {base candidate : List (Value F)} {cases : List (Bench.CaseKey F × List (Value F))}
    {bases : List (Bench.CaseKey F × Value F)}
    (hinputs : compareInputs py baseline results = .ok (base, candidate))
    (hcases : Bench.byCase candidate = .ok cases) (hbases : Bench.baseByCase base = .ok bases) :
    ForCases py baseline results P <-> forall e, e ∈ cases -> P base bases e := by
  constructor
  · rintro ⟨base', candidate', cases', bases', hinputs', hcases', hbases', hall⟩
    rw [hinputs] at hinputs'
    injection hinputs' with hpair
    injection hpair with hb hc
    subst hb hc
    rw [hcases] at hcases'
    rw [hbases] at hbases'
    injection hcases' with hcases'
    injection hbases' with hbases'
    rw [hcases', hbases']
    exact hall
  · intro hall
    exact ⟨base, candidate, cases, bases, hinputs, hcases, hbases, hall⟩

/-- A case with an outcome that does not fail the gate: it passed exactly when it could be
compared. -/
theorem casePassed_iff {py : Bench.Python F} {evidence : Evidence F}
    {base candidate : List (Value F)} (hbase : forall r, r ∈ base -> r.Sound)
    (hcand : forall r, r ∈ candidate -> r.Sound)
    {cases : List (Bench.CaseKey F × List (Value F))}
    {bases : List (Bench.CaseKey F × Value F)} (hcases : Bench.byCase candidate = .ok cases)
    (hbases : Bench.baseByCase base = .ok bases) {e : Bench.CaseKey F × List (Value F)}
    (he : e ∈ cases) {result : Bench.CaseResult F}
    (h : Bench.compareOne py (some (evidence.problem py)) bases e.1 e.2 = .ok result)
    (hgood : result.outcome = .pass ∨ result.outcome = .skipped) :
    CasePassed py evidence base bases e <-> CaseComparable bases e := by
  rcases Bench.compareOne_cases h with hinvalid | ⟨hskipped, cand, hrecords, hwhy⟩ |
    ⟨cand, b, c, c', samples, samples', higher, hrecords, _, hfind, hc, hc', hcompat, hsamples,
      hsamples', hhigher, hcase⟩
  · rw [hinvalid] at hgood
    rcases hgood with hgood | hgood <;> cases hgood
  · refine iff_of_false ?_ ?_
    · rintro ⟨_, _, result', _, _, _, h', hpass⟩
      rw [h] at h'
      injection h' with h'
      rw [← h', hskipped] at hpass
      cases hpass
    · rintro ⟨b, c, hfind, hc, hall⟩
      rcases hall cand (by rw [hrecords]; exact List.mem_cons_self) with ⟨c', hc', hcompat⟩
      rcases hwhy with hnone | ⟨b', d, d', hfind', hd, hd', hdiffer⟩
      · rw [hfind] at hnone
        cases hnone
      · rw [hfind] at hfind'
        injection hfind' with hb
        rw [← hb, hc] at hd
        rw [hc'] at hd'
        injection hd with hd
        injection hd' with hd'
        rw [← hd, ← hd', hcompat] at hdiffer
        cases hdiffer
  · rcases Bench.byCase_one hcases he hrecords with ⟨hcin, hkey⟩
    rcases Bench.sameMeasurement_of_find hbase hbases hfind (hcand cand hcin) hkey hc hc'
      hcompat with ⟨hbin, hsame⟩
    have hpass : result.outcome = .pass := by
      rcases hgood with hgood | hgood
      · exact hgood
      · have hcompared := Bench.compareCase_compared hcase
        rw [hgood] at hcompared
        cases hcompared
    refine iff_of_true ⟨cand, b, result, hrecords, hbin, hsame, h, hpass⟩ ⟨b, c, hfind, hc, ?_⟩
    intro cand' hcand'
    rw [hrecords, List.mem_singleton] at hcand'
    rw [hcand']
    exact ⟨c', hc', hcompat⟩

/-- What is loaded was read from a text. -/
theorem load_sound {py : Bench.Python F} {file : Option Content} {rs : List (Value F)}
    (h : load py file = .ok rs) : forall r, r ∈ rs -> r.Sound := by
  rcases Fallible.bind_eq_ok.mp h with ⟨text, _, h⟩
  intro r hr
  rcases Fallible.forall₂_mem_right (Fallible.mapM_eq_ok.mp h) hr with ⟨line, _, hline⟩
  unfold loadLine at hline
  split at hline
  · cases hline
  · cases hline
  · rename_i record hload
    rcases Fallible.bind_eq_ok.mp hline with ⟨_, _, hline⟩
    injection hline with hline
    rw [← hline]
    exact loads_sound hload

omit [FloatText F] in
theorem soundItems_mem {items : List (Value F)} (h : Value.SoundItems items) {v : Value F}
    (hv : v ∈ items) : v.Sound := by
  induction items with
  | nil => cases hv
  | cons x items ih =>
      rcases List.mem_cons.mp hv with rfl | hv
      · exact h.1
      · exact ih h.2 hv

omit [FloatText F] in
theorem iterate_sound {v : Value F} (hv : v.Sound) {items : List (Value F)}
    (h : PairFile.iterate v = .ok items) : forall x, x ∈ items -> x.Sound := by
  intro x hx
  cases v with
  | list xs =>
      injection h with h
      rw [← h] at hx
      exact soundItems_mem hv hx
  | dict fields =>
      injection h with h
      rw [← h] at hx
      rcases List.mem_map.mp hx with ⟨e, _, rfl⟩
      exact True.intro
  | str s =>
      injection h with h
      rw [← h] at hx
      rcases List.mem_map.mp hx with ⟨c, _, rfl⟩
      exact True.intro
  | none => cases h
  | bool b => cases h
  | int n => cases h
  | float x => cases h

theorem loadBaseline_sound {py : Bench.Python F} {baseline : Baseline} {rs : List (Value F)}
    (h : loadBaseline py baseline = .ok rs) : forall r, r ∈ rs -> r.Sound := by
  unfold loadBaseline at h
  split_ifs at h
  · rcases Fallible.bind_eq_ok.mp h with ⟨text, _, h⟩
    rcases Fallible.bind_eq_ok.mp h with ⟨data, hdata, h⟩
    rcases Fallible.bind_eq_ok.mp h with ⟨listed, hlisted, h⟩
    rcases Fallible.bind_eq_ok.mp h with ⟨records, hrecords, h⟩
    have hsound := iterate_sound (Bench.item_sound (loads_sound hdata) hlisted) hrecords
    intro r hr
    rcases Fallible.forall₂_mem_right (Fallible.mapM_eq_ok.mp h) hr with ⟨r', hr', hone⟩
    rcases Fallible.bind_eq_ok.mp hone with ⟨_, _, hone⟩
    injection hone with hone
    rw [← hone]
    exact hsound r' hr'
  · exact load_sound h

/-- What is compared was read from texts. -/
theorem compareInputs_sound {py : Bench.Python F} {baseline : Baseline}
    {results : Option Content} {base candidate : List (Value F)}
    (h : compareInputs py baseline results = .ok (base, candidate)) :
    (forall r, r ∈ base -> r.Sound) ∧ forall r, r ∈ candidate -> r.Sound := by
  unfold compareInputs at h
  rcases Fallible.bind_eq_ok.mp h with ⟨base', hbase, h⟩
  split at h
  · cases h
  · rcases Fallible.bind_eq_ok.mp h with ⟨text, _, h⟩
    split_ifs at h
    rcases Fallible.bind_eq_ok.mp h with ⟨candidate', hcand, h⟩
    injection h with h
    injection h with hb hc
    rw [← hb, ← hc]
    exact ⟨loadBaseline_sound hbase, load_sound hcand⟩

/-- A comparison that exits with 0 has found nothing but passed and skipped cases. -/
theorem compareMain_zero {py : Bench.Python F} {evidence : Evidence F} {baseline : Baseline}
    {results : Option Content} (h : compareMain py evidence baseline results = .ok 0) :
    exists base candidate found, compareInputs py baseline results = .ok (base, candidate) ∧
      Bench.compareRuns py base candidate none (some (evidence.problem py)) = .ok found ∧
      forall r, r ∈ found -> r.outcome = .pass ∨ r.outcome = .skipped := by
  unfold compareMain at h
  split at h
  · split_ifs at h
    cases h
  · rename_i base candidate hinputs
    rcases Fallible.bind_eq_ok.mp h with ⟨found, hfound, h⟩
    split_ifs at h with hbad
    · cases h
    · refine ⟨base, candidate, found, hinputs, hfound, ?_⟩
      intro r hr
      rw [List.any_eq_true] at hbad
      have hr' := not_exists.mp hbad r
      cases houtcome : r.outcome <;> simp_all

/-- A gate with a baseline that returns 0 has run the comparison, which found nothing bad. -/
theorem gate_zero {r : Run F} {after : Files} {baseline : Baseline}
    (hbaseline : r.baseline = some baseline) (h : gate r = (after, .ok 0)) :
    compareMain r.python r.evidence baseline after.results = .ok 0 := by
  have hjudge : judge r after.results = .ok 0 := by
    unfold gate at h
    split_ifs at h
    · cases h
    · split at h
      · cases h
      · split at h
        · cases h
        · split_ifs at h with hcode
          · injection h with _ h
            injection h with h
            exact absurd h hcode
          · split at h
            · cases h
            · injection h with hfiles h
              rw [← hfiles]
              exact h
  unfold judge at hjudge
  rcases Fallible.bind_eq_ok.mp hjudge with ⟨missing, _, hjudge⟩
  rcases Fallible.bind_eq_ok.mp hjudge with ⟨problems, _, hjudge⟩
  split_ifs at hjudge
  · cases hjudge
  · rw [hbaseline] at hjudge
    rcases Fallible.bind_eq_ok.mp hjudge with ⟨code, hcompare, hjudge⟩
    split_ifs at hjudge with hcode
    · injection hjudge with hjudge
      exact absurd hjudge hcode
    · rw [hcompare, not_not.mp hcode]

/-- A required gate that returns 0 has compared every case exactly when every case has a
baseline record that it can be compared with. -/
theorem gate_compared (r : Run F) (after : Files) (baseline : Baseline)
    (hbaseline : r.baseline = some baseline) (h : gate r = (after, .ok 0)) :
    Compared r.python r.evidence baseline after.results <->
      Comparable r.python baseline after.results := by
  rcases compareMain_zero (gate_zero hbaseline h) with
    ⟨base, candidate, found, hinputs, hfound, hgood⟩
  rcases compareInputs_sound hinputs with ⟨hbase, hcand⟩
  rcases Bench.compareRuns_outcomes hfound with ⟨cases, bases, hcases, hbases, houtcomes⟩
  have hone : forall e, e ∈ cases ->
      (CasePassed r.python r.evidence base bases e <-> CaseComparable bases e) := by
    intro e he
    rcases houtcomes e he with ⟨result, hresult, hcompare⟩
    exact casePassed_iff hbase hcand hcases hbases he hcompare (hgood result hresult)
  unfold Compared Comparable
  rw [forCases_iff hinputs hcases hbases, forCases_iff hinputs hcases hbases]
  exact forall_congr' fun e => forall_congr' fun he => hone e he

/-!
## A case that is left out
-/

/-- Valid records are loaded as they were written. -/
theorem load_recordsText {py : Bench.Python F} {rs : List (Value F)}
    (hsound : forall r, r ∈ rs -> r.Sound)
    (hvalid : forall r, r ∈ rs -> Bench.validate py r = .ok ()) :
    load py (some (.utf8 (PairFile.recordsText rs))) = .ok rs := by
  refine Fallible.bind_eq_ok.mpr ⟨PairFile.recordsText rs, rfl, ?_⟩
  rw [PairFile.recordLines_recordsText, Fallible.mapM_eq_ok, List.forall₂_map_left_iff,
    List.forall₂_same]
  intro r hr
  unfold loadLine
  rw [loads_dumps (hsound r hr)]
  exact Fallible.bind_eq_ok.mpr ⟨(), hvalid r hr, rfl⟩

/-- One record of the tcp workload, on a GPU. -/
def tcpRecord (gpu : String) : Value Half :=
  .dict [
    ("schema", .int 1),
    ("provenance", .dict [("git_sha", .str "0"), ("date", .str "0"), ("run_id", .str "0")]),
    ("compat", .dict [("gpu", .str gpu), ("driver", .none), ("cuda", .none), ("nic", .none),
      ("topology", .none), ("build_level", .none), ("compiler", .none), ("deps", .none)]),
    ("bench", .str "tcp_put"),
    ("params", .dict []),
    ("unit", .str "GB/s"),
    ("higher_is_better", .bool true),
    ("samples", .list (List.replicate 10 (.int 1)))]

/-- The evidence of a tcp lane. -/
def tcpEvidence : Value Half :=
  .dict [("workload", .str "tcp_put"), ("program", .dict []),
    ("lanes", .list [.dict [("tl", .str "tcp"), ("device", .str "eth0")]])]

/-- A baseline that was recorded on one GPU. -/
def h100Baseline : Baseline := ⟨false, some (.utf8 (PairFile.recordsText [tcpRecord "H100"]))⟩

/-- Samples that are all alike show no change. -/
def calmPython : Bench.Python Half where
  str v :=
    match v with
    | .str s => s
    | _ => ""
  quantiles _ := .error .zeroDivisionError
  bootstrap _ _ _ := .ok (.zero, .zero, .zero)
  below x := x = .zero
  above x := x = .half

def tcpLane : Evidence Half where
  file name := if name = "tcp_put.json" then some (.utf8 (dumps tcpEvidence)) else none
  check _ := .ok []

/-- The tcp workload on two pods with a GPU. -/
def gpuRun (gpu : String) : Run Half where
  setup := ⟨[.tcpPut], []⟩
  machine := ⟨["tcp"], "L4:1", 2⟩
  checkMachine := .ok ()
  rdmaNics := ""
  run := .ok 0
  files := ⟨none, none, none, some (.utf8 (PairFile.recordsText [tcpRecord gpu])), none⟩
  evidence := tcpLane
  baseline := some h100Baseline
  python := calmPython
  pairPython := smallPython
  disk := goodDisk
  tools := goodTools

theorem tcpRecord_sound (gpu : String) : (tcpRecord gpu).Sound := by
  have hone : (Nat.toDigits 10 1).length ≤ Value.maxDigits := by decide
  simp [tcpRecord, Value.Sound, Value.SoundFields, Value.SoundItems, hone, List.replicate]

theorem h100_valid : Bench.validate calmPython (tcpRecord "H100") = .ok () := by decide +kernel

theorem l4_valid : Bench.validate calmPython (tcpRecord "L4") = .ok () := by decide +kernel

theorem load_tcpRecord {gpu : String} (h : Bench.validate calmPython (tcpRecord gpu) = .ok ()) :
    load calmPython (some (.utf8 (PairFile.recordsText [tcpRecord gpu]))) =
      .ok [tcpRecord gpu] := by
  refine load_recordsText ?_ ?_
  · intro r hr
    rw [List.mem_singleton.mp hr]
    exact tcpRecord_sound gpu
  · intro r hr
    rw [List.mem_singleton.mp hr]
    exact h

theorem compareInputs_gpuRun {gpu : String}
    (h : Bench.validate calmPython (tcpRecord gpu) = .ok ()) :
    compareInputs calmPython h100Baseline (gpuRun gpu).files.results =
      .ok ([tcpRecord "H100"], [tcpRecord gpu]) := by
  refine Fallible.bind_eq_ok.mpr ⟨[tcpRecord "H100"], load_tcpRecord h100_valid, ?_⟩
  refine Fallible.bind_eq_ok.mpr ⟨PairFile.recordsText [tcpRecord gpu], rfl, ?_⟩
  rw [if_neg (by rw [PairFile.isBlank_recordsText]; decide)]
  exact Fallible.bind_eq_ok.mpr ⟨_, load_tcpRecord h, rfl⟩

theorem tcpEvidence_read : (readText (tcpLane.file "tcp_put.json") >>= loads) =
    .ok tcpEvidence := by
  have hsound : tcpEvidence.Sound := by
    simp [tcpEvidence, Value.Sound, Value.SoundFields, Value.SoundItems]
  exact PairFile.readText_dumps hsound

theorem tcpLane_problem : tcpLane.problem calmPython (.str "tcp_put") = .ok "" := by
  have hname : calmPython.str (.str "tcp_put") ++ ".json" = "tcp_put.json" := by rfl
  unfold Evidence.problem
  simp only [hname, tcpEvidence_read]
  rfl

/-- The comparison of a case whose evidence has no problem. -/
theorem compareOne_of_evidence (py : Bench.Python F)
    {evidence : Option (Value F -> Except Exn String)}
    (bases : List (Bench.CaseKey F × Value F)) (key : Bench.CaseKey F) (records : List (Value F))
    (h : Bench.evidenceProblem evidence key.bench = .ok "") :
    Bench.compareOne py evidence bases key records =
      Bench.compareOne py none bases key records := by
  unfold Bench.compareOne
  rw [h]
  rfl

/-- The case of the records. -/
def tcpCase : Bench.CaseKey Half := ⟨.str "tcp_put", "\x7b\x7d"⟩

theorem compareOne_tcpCase (gpu : String) :
    Bench.compareOne calmPython (some (tcpLane.problem calmPython))
      [(tcpCase, tcpRecord "H100")] tcpCase [tcpRecord gpu] =
    Bench.compareOne calmPython none [(tcpCase, tcpRecord "H100")] tcpCase [tcpRecord gpu] := by
  apply compareOne_of_evidence
  rw [Bench.evidenceProblem]
  exact tcpLane_problem

/-- The one case passes on the GPU of the baseline. -/
theorem compareOne_h100 :
    exists result, Bench.compareOne calmPython (some (tcpLane.problem calmPython))
      [(tcpCase, tcpRecord "H100")] tcpCase [tcpRecord "H100"] = .ok result ∧
      result.outcome = .pass := by
  rw [compareOne_tcpCase]
  exact ⟨_, rfl, rfl⟩

/-- The one case is skipped on another GPU. -/
theorem compareOne_l4 :
    exists result, Bench.compareOne calmPython (some (tcpLane.problem calmPython))
      [(tcpCase, tcpRecord "H100")] tcpCase [tcpRecord "L4"] = .ok result ∧
      result.outcome = .skipped := by
  rw [compareOne_tcpCase]
  exact ⟨_, rfl, rfl⟩

theorem byCase_tcpRecord (gpu : String) :
    Bench.byCase [tcpRecord gpu] = .ok [(tcpCase, [tcpRecord gpu])] := by
  rfl

theorem baseByCase_h100 :
    Bench.baseByCase [tcpRecord "H100"] = .ok [(tcpCase, tcpRecord "H100")] := by
  rfl

/-- The comparison of one record with one. -/
theorem compareRuns_one {py : Bench.Python F} {base cand : Value F}
    {evidence : Option (Value F -> Except Exn String)} {key : Bench.CaseKey F}
    {result : Bench.CaseResult F} (hcases : Bench.byCase [cand] = .ok [(key, [cand])])
    (hbases : Bench.baseByCase [base] = .ok [(key, base)])
    (hone : Bench.compareOne py evidence [(key, base)] key [cand] = .ok result) :
    Bench.compareRuns py [base] [cand] none evidence = .ok [result] := by
  unfold Bench.compareRuns
  rw [hcases, hbases]
  refine Fallible.bind_eq_ok.mpr ⟨_, rfl, ?_⟩
  refine Fallible.bind_eq_ok.mpr ⟨_, rfl, ?_⟩
  refine Fallible.bind_eq_ok.mpr ⟨[], rfl, ?_⟩
  refine Fallible.bind_eq_ok.mpr ⟨[result], ?_, rfl⟩
  exact Fallible.mapM_eq_ok.mpr (List.Forall₂.cons hone List.Forall₂.nil)

/-- A comparison whose one case passes or is skipped exits with 0. -/
theorem compareMain_of_good {py : Bench.Python F} {evidence : Evidence F}
    {baseline : Baseline} {results : Option Content} {base candidate : List (Value F)}
    {result : Bench.CaseResult F}
    (hinputs : compareInputs py baseline results = .ok (base, candidate))
    (hruns : Bench.compareRuns py base candidate none (some (evidence.problem py)) =
      .ok [result])
    (hgood : result.outcome = .pass ∨ result.outcome = .skipped) :
    compareMain py evidence baseline results = .ok 0 := by
  unfold compareMain
  rw [hinputs]
  refine Fallible.bind_eq_ok.mpr ⟨[result], hruns, ?_⟩
  rcases hgood with hpass | hskipped
  · simp [hpass, pure, Except.pure]
  · simp [hskipped, pure, Except.pure]

theorem missingRecords_gpuRun (gpu : String) :
    missingRecords Half (gpuRun gpu).workloads (gpuRun gpu).files.results = .ok [] := by
  refine Fallible.bind_eq_ok.mpr ⟨PairFile.recordsText [tcpRecord gpu], rfl, ?_⟩
  rw [PairFile.recordLines_recordsText]
  refine Fallible.bind_eq_ok.mpr ⟨[.str "tcp_put"], ?_, ?_⟩
  · refine Fallible.mapM_eq_ok.mpr (List.Forall₂.cons ?_ List.Forall₂.nil)
    exact Fallible.bind_eq_ok.mpr ⟨tcpRecord gpu, loads_dumps (tcpRecord_sound gpu), rfl⟩
  · rfl

/-- A workload whose evidence shows its transport. -/
theorem evidenceProblems_one {evidence : Evidence F} {w : String} (content : Content)
    {ev : Value F} (hfile : evidence.file (w ++ ".json") = some content)
    (hread : (readText (some content) >>= loads) = .ok ev) (hcheck : evidence.check ev = .ok []) :
    evidenceProblems evidence [w] = .ok [] := by
  have hlines : evidenceLines evidence w = .ok [] := by
    rcases Fallible.bind_eq_ok.mp hread with ⟨text, htext, hload⟩
    unfold evidenceLines
    rw [hfile]
    refine Fallible.bind_eq_ok.mpr ⟨text, htext, ?_⟩
    refine Fallible.bind_eq_ok.mpr ⟨ev, hload, ?_⟩
    exact Fallible.bind_eq_ok.mpr ⟨[], hcheck, rfl⟩
  refine Fallible.bind_eq_ok.mpr ⟨[[]], ?_, rfl⟩
  exact Fallible.mapM_eq_ok.mpr (List.Forall₂.cons hlines List.Forall₂.nil)

/-- Records on one topology, which the baseline has. -/
theorem topologyMismatch_one {py : Bench.Python F} {baseline : Baseline}
    {results : Option Content} {t : Value F}
    (hknown : recordedTopologies py baseline = .ok [t])
    (hfound : candidateTopologies F results = .ok [t]) (ht : t.eq t = true) :
    topologyMismatch py baseline results = .ok [] := by
  have hbaseline : baselineTopologies py baseline = .ok (some [t]) := by
    unfold baselineTopologies
    rw [hknown]
  refine Fallible.bind_eq_ok.mpr ⟨some [t], hbaseline, ?_⟩
  refine Fallible.bind_eq_ok.mpr ⟨[t], hfound, ?_⟩
  simp [ht, pure, Except.pure]

theorem topologyMismatch_gpuRun (gpu : String) :
    topologyMismatch calmPython h100Baseline (gpuRun gpu).files.results = .ok [] := by
  have hknown : recordedTopologies calmPython h100Baseline = .ok [.none] := by
    refine Fallible.bind_eq_ok.mpr ⟨[tcpRecord "H100"], load_tcpRecord h100_valid, ?_⟩
    rfl
  have hfound : candidateTopologies Half (gpuRun gpu).files.results = .ok [.none] := by
    refine Fallible.bind_eq_ok.mpr ⟨PairFile.recordsText [tcpRecord gpu], rfl, ?_⟩
    rw [PairFile.recordLines_recordsText]
    refine Fallible.mapM_eq_ok.mpr (List.Forall₂.cons ?_ List.Forall₂.nil)
    exact Fallible.bind_eq_ok.mpr ⟨tcpRecord gpu, loads_dumps (tcpRecord_sound gpu), rfl⟩
  exact topologyMismatch_one hknown hfound rfl

/-- A gate without a stamp whose checks all pass. -/
theorem gate_of_judge {r : Run F} (hsupported : Capabilities.unsupported r.setup r.machine = [])
    (hmachine : r.checkMachine = .ok ()) (hrun : r.run = .ok 0) (halso : r.setup.alsoRun = [])
    {baseline : Baseline} (hbaseline : r.baseline = some baseline)
    (hmissing : missingRecords F r.workloads r.files.results = .ok [])
    (hevidence : evidenceProblems r.evidence r.workloads = .ok [])
    (hcompare : compareMain r.python r.evidence baseline r.files.results = .ok 0)
    (hmismatch : topologyMismatch r.python baseline r.files.results = .ok []) :
    gate r = (r.files, .ok 0) := by
  have hjudge : judge r r.files.results = .ok 0 := by
    refine Fallible.bind_eq_ok.mpr ⟨[], hmissing, ?_⟩
    refine Fallible.bind_eq_ok.mpr ⟨[], hevidence, ?_⟩
    rw [hbaseline]
    refine Fallible.bind_eq_ok.mpr ⟨0, hcompare, ?_⟩
    exact Fallible.bind_eq_ok.mpr ⟨[], hmismatch, rfl⟩
  have hstamped : stamped r = (r.files, .ok ()) := by
    unfold stamped
    rw [halso, if_neg fun h => List.not_mem_nil h.2]
  unfold gate
  simp only [hsupported, hmachine, hrun, hstamped, hjudge, if_false, ne_eq, not_true_eq_false]

/-- Two pods with tcp support the workload. -/
theorem supported_gpuRun (gpu : String) :
    Capabilities.unsupported (gpuRun gpu).setup (gpuRun gpu).machine = [] := by
  apply Capabilities.unsupported_eq_nil.mpr
  intro w hw
  rw [List.mem_singleton.mp hw]
  exact ⟨_, rfl, List.Subset.refl _, Nat.le_refl 2, Nat.zero_le _⟩

theorem gate_gpuRun {gpu : String} (hvalid : Bench.validate calmPython (tcpRecord gpu) = .ok ())
    {result : Bench.CaseResult Half}
    (hone : Bench.compareOne calmPython (some (tcpLane.problem calmPython))
      [(tcpCase, tcpRecord "H100")] tcpCase [tcpRecord gpu] = .ok result)
    (hgood : result.outcome = .pass ∨ result.outcome = .skipped) :
    gate (gpuRun gpu) = ((gpuRun gpu).files, .ok 0) := by
  have hevidence : evidenceProblems tcpLane ["tcp_put"] = .ok [] :=
    evidenceProblems_one (.utf8 (dumps tcpEvidence)) (by rfl) tcpEvidence_read rfl
  have hruns := compareRuns_one (byCase_tcpRecord gpu) baseByCase_h100 hone
  exact gate_of_judge (supported_gpuRun gpu) rfl rfl rfl rfl (missingRecords_gpuRun gpu) hevidence
    (compareMain_of_good (compareInputs_gpuRun hvalid) hruns hgood) (topologyMismatch_gpuRun gpu)

/-- The gate on the GPU of the baseline passes with its one case compared, and the one on another
GPU passes too. -/
theorem gate_compared_gpuRun :
    gate (gpuRun "H100") = ((gpuRun "H100").files, .ok 0) ∧
    Compared calmPython tcpLane h100Baseline (gpuRun "H100").files.results ∧
    gate (gpuRun "L4") = ((gpuRun "L4").files, .ok 0) ∧
    (Compared calmPython tcpLane h100Baseline (gpuRun "L4").files.results <->
      Comparable calmPython h100Baseline (gpuRun "L4").files.results) := by
  rcases compareOne_h100 with ⟨result, hresult, hpass⟩
  rcases compareOne_l4 with ⟨result', hresult', hskipped⟩
  have hgate := gate_gpuRun h100_valid hresult (.inl hpass)
  have hgate' := gate_gpuRun l4_valid hresult' (.inr hskipped)
  refine ⟨hgate, ?_, hgate', gate_compared (gpuRun "L4") _ h100Baseline rfl hgate'⟩
  refine (gate_compared (gpuRun "H100") _ h100Baseline rfl hgate).mpr ?_
  apply (forCases_iff (compareInputs_gpuRun h100_valid) (byCase_tcpRecord "H100")
    baseByCase_h100).mpr
  intro e he
  rw [List.mem_singleton.mp he]
  refine ⟨tcpRecord "H100", _, rfl, rfl, ?_⟩
  intro cand hcand
  rw [List.mem_singleton.mp hcand]
  exact ⟨_, rfl, rfl⟩

/-- The gate returns 0 though its one case was skipped. -/
theorem gate_skips_case :
    gate (gpuRun "L4") = ((gpuRun "L4").files, .ok 0) ∧
    (gpuRun "L4").baseline = some h100Baseline ∧
    ¬ Compared calmPython tcpLane h100Baseline (gpuRun "L4").files.results := by
  rcases compareOne_l4 with ⟨result, hresult, hskipped⟩
  refine ⟨gate_gpuRun l4_valid hresult (.inr hskipped), rfl, ?_⟩
  unfold Compared
  rw [forCases_iff (compareInputs_gpuRun l4_valid) (byCase_tcpRecord "L4") baseByCase_h100]
  intro h
  rcases h _ List.mem_cons_self with ⟨_, _, result', _, _, _, hresult', hpass⟩
  have heq : Bench.compareOne calmPython (some (tcpLane.problem calmPython))
      [(tcpCase, tcpRecord "H100")] tcpCase [tcpRecord "L4"] = .ok result' := hresult'
  rw [hresult] at heq
  injection heq with heq
  rw [← heq, hskipped] at hpass
  cases hpass

end Gate
end Dev
end Ostia

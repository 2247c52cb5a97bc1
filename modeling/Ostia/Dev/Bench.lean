import Ostia.Dev.JsonText
import Ostia.Foundation.OrdMap

/-!
# Benchmark records and their comparison

A record is one measurement.  Which measurement it is, is its benchmark and its
parameters; whether two records may be compared is decided by the compatibility
fields.  The comparison gives each case of a candidate an outcome, and a baseline
pools the samples of several runs.

The bootstrap, its medians and the texts of odd values are a parameter.
-/

namespace Ostia
namespace Dev

open Foundation
open JsonText

namespace Bench

variable {F : Type} [FloatText F]

/-- What the comparison takes from Python: texts, quantiles and the bootstrap. -/
structure Python (F : Type) where
  str : Value F -> String
  /-- The median and the two percentiles of the samples of a pooled record. -/
  quantiles : List (Value F) -> Except Exn (Value F × Value F × Value F)
  /-- The change and the bounds of its interval, for at least ten samples a side. -/
  bootstrap : List (Value F) -> List (Value F) -> Bool -> Except Exn (F × F × F)
  /-- Below and above the threshold. -/
  below : F -> Bool
  above : F -> Bool

/-!
## Records
-/

def provenanceFields : List String := ["git_sha", "date", "run_id"]

def compatFields : List String :=
  ["gpu", "driver", "cuda", "nic", "topology", "build_level", "compiler", "deps"]

def requiredFields : List String :=
  ["schema", "provenance", "compat", "bench", "params", "unit", "higher_is_better",
    "samples"]

/-- Integers from here on have no float to be tested as. -/
def floatLimit : Nat := 2 ^ 1024 - 2 ^ 970

/-- A number that is finite; an integer that is too large raises. -/
def isFiniteNumber : Value F -> Except Exn Bool
  | .bool _ => .ok true
  | .int n => if n.natAbs < floatLimit then .ok true else .error .overflowError
  | .float x =>
      match PyFloat.value x with
      | .finite _ => .ok true
      | _ => .ok false
  | _ => .ok false

/-- Every sample is a finite number; the first that is none ends the test. -/
def allFinite : List (Value F) -> Except Exn Bool
  | [] => .ok true
  | s :: rest =>
      match isFiniteNumber s with
      | .error e => .error e
      | .ok false => .ok false
      | .ok true => allFinite rest

def isStrDict : Value F -> Bool
  | .dict fields => fields.all fun e => e.2.isStr
  | _ => false

/-- Every field is there, else the first that is missing is reported. -/
def requireIn (v : Value F) (what : String) : List String -> Except Exn Unit
  | [] => .ok ()
  | f :: rest => do
      if !(← v.contains f) then
        .error (.schemaError ("missing " ++ what ++ "field '" ++ f ++ "'"))
      else requireIn v what rest

def validate (py : Python F) (record : Value F) : Except Exn Unit := do
  let version := (← record.get "schema").getD .none
  if version.differs (.int 1) then
    throw (.schemaError ("schema version " ++ py.str version ++
      " is not supported by this tool (supported: 1); update ostia-dev bench or re-record"))
  requireIn record "" requiredFields
  requireIn (← record.item "provenance") "provenance " provenanceFields
  requireIn (← record.item "compat") "compat " compatFields
  match (← record.get "devices").getD .none with
  | .none => pure ()
  | devices =>
      if !isStrDict devices then
        throw (.schemaError "'devices' must be an object of bus ID strings")
  match ← record.item "samples" with
  | .list (s :: rest) =>
      if !(← allFinite (s :: rest)) then
        throw (.schemaError "'samples' contains non-finite or non-numeric values")
  | _ => throw (.schemaError "'samples' must be a non-empty list")

mutual

/-- A value with the keys of its dictionaries in order. -/
def sortKeys : Value F -> Value F
  | .list xs => .list (sortItems xs)
  | .dict fs => .dict (sortFields fs)
  | .none => .none
  | .bool b => .bool b
  | .int n => .int n
  | .float x => .float x
  | .str s => .str s

def sortItems : List (Value F) -> List (Value F)
  | [] => []
  | x :: xs => sortKeys x :: sortItems xs

def sortFields : List (String × Value F) -> List (String × Value F)
  | [] => []
  | (k, v) :: fs => OrdMap.insertEntry k (sortKeys v) (sortFields fs)

end

/-- Which measurement a record is: benchmark name and parameters. -/
structure CaseKey (F : Type) where
  bench : Value F
  params : String

/-- The keys of one dictionary entry; a list or a dictionary cannot be part of a key. -/
def CaseKey.same (a b : CaseKey F) : Bool := a.bench.eq b.bench && a.params == b.params

def hashable : Value F -> Bool
  | .list _ => false
  | .dict _ => false
  | _ => true

def caseKey (record : Value F) : Except Exn (CaseKey F) := do
  let bench ← record.item "bench"
  let params ← record.item "params"
  pure ⟨bench, dumps (sortKeys params)⟩

/-- A key as it is looked up. -/
def hashed (key : CaseKey F) : Except Exn (CaseKey F) :=
  if hashable key.bench then .ok key else .error .typeError

/-- The compatibility fields, a missing one as none. -/
def compatKey (record : Value F) : Except Exn (List (Value F)) := do
  let compat ← record.item "compat"
  compatFields.mapM fun f => do
    let v ← compat.get f
    pure (v.getD .none)

/-- Records compare only when every compatibility field is equal. -/
def sameCompat (a b : List (Value F)) : Bool := Value.eqItems a b

def samplesOf (record : Value F) : Except Exn (List (Value F)) := do
  match ← record.item "samples" with
  | .list xs => pure xs
  | _ => .error .typeError

/-!
## Comparison
-/

inductive Outcome where
  | pass
  | regression
  | inconclusive
  | invalid
  | skipped
deriving DecidableEq, Repr

structure CaseResult (F : Type) where
  key : CaseKey F
  outcome : Outcome
  detail : String := ""
  /-- The change and its interval, where one was computed. -/
  interval : Option (F × F × F) := none

def minSamples : Nat := 10

def compareCase (py : Python F) (baseline candidate : List (Value F))
    (higherIsBetter : Value F) : Except Exn (Outcome × Option (F × F × F)) :=
  if baseline.length < minSamples ∨ candidate.length < minSamples then
    .ok (.inconclusive, none)
  else do
    let (d, lo, hi) ← py.bootstrap baseline candidate higherIsBetter.truthy
    if py.below hi then pure (.pass, some (d, lo, hi))
    else if py.above lo then pure (.regression, some (d, lo, hi))
    else pure (.inconclusive, some (d, lo, hi))

/-- The first twelve characters after the last colon. -/
def short : Value F -> Except Exn String
  | .none => .ok "null"
  | .str s =>
      .ok (String.ofList ((s.toList.reverse.takeWhile fun c => c ≠ ':').reverse.take 12))
  | _ => .error .attributeError

def topologyNote (base cand : Value F) : Except Exn String := do
  let b ← short base
  let c ← short cand
  match base, cand with
  | .none, _ | _, .none =>
      pure ("topology is " ++ b ++ " in the baseline and " ++ c ++
        " in the candidate; re-record the baseline (or the run) with a topology id")
  | _, _ =>
      pure ("topology " ++ b ++ " (baseline) vs " ++ c ++
        " (candidate); fix: pixi run ostia-dev topo which " ++ c)

/-- The fields that differ and, for the topology, what to do. -/
def compatNote (base cand : Value F) : Except Exn String := do
  let b ← compatKey base
  let c ← compatKey cand
  let diff := ((compatFields.zip (b.zip c)).filter fun e => e.2.1.differs e.2.2).map Prod.fst
  let note := "compat fields differ: " ++ ", ".intercalate diff
  if "topology" ∈ diff then
    let topology ← topologyNote (← (← base.item "compat").item "topology")
      (← (← cand.item "compat").item "topology")
    pure (note ++ "; " ++ topology)
  else pure note

/-- The candidate's records by case, in the order of the first record of each. -/
def addCase (key : CaseKey F) (r : Value F) :
    List (CaseKey F × List (Value F)) -> List (CaseKey F × List (Value F))
  | [] => [(key, [r])]
  | e :: rest => if e.1.same key then (e.1, e.2 ++ [r]) :: rest else e :: addCase key r rest

def byCase (candidate : List (Value F)) : Except Exn (List (CaseKey F × List (Value F))) :=
  candidate.foldlM (fun cases r => do
    let key ← hashed (← caseKey r)
    pure (addCase key r cases)) []

/-- The baseline record of a case: the last one with its key. -/
def setBase (key : CaseKey F) (r : Value F) :
    List (CaseKey F × Value F) -> List (CaseKey F × Value F)
  | [] => [(key, r)]
  | e :: rest => if e.1.same key then (e.1, r) :: rest else e :: setBase key r rest

def baseByCase (baseline : List (Value F)) : Except Exn (List (CaseKey F × Value F)) :=
  baseline.foldlM (fun bases r => do
    let key ← hashed (← caseKey r)
    pure (setBase key r bases)) []

def findCase {A : Type} (key : CaseKey F) : List (CaseKey F × A) -> Option A
  | [] => none
  | e :: rest => if e.1.same key then some e.2 else findCase key rest

/-- What is wrong with the transport evidence of a benchmark, where it is asked for. -/
def evidenceProblem (evidence : Option (Value F -> Except Exn String)) (bench : Value F) :
    Except Exn String :=
  match evidence with
  | none => .ok ""
  | some check => check bench

/-- The outcome of one case of the candidate. -/
def compareOne (py : Python F) (evidence : Option (Value F -> Except Exn String))
    (bases : List (CaseKey F × Value F)) (key : CaseKey F) (records : List (Value F)) :
    Except Exn (CaseResult F) :=
  match records with
  | [cand] => do
      let problem ← evidenceProblem evidence key.bench
      if problem ≠ "" then pure { key := key, outcome := .invalid, detail := problem }
      else
        match findCase key bases with
        | none => pure { key := key, outcome := .skipped, detail := "no baseline for this case" }
        | some base =>
            if !sameCompat (← compatKey base) (← compatKey cand) then
              pure { key := key, outcome := .skipped, detail := ← compatNote base cand }
            else
              let (outcome, interval) ← compareCase py (← samplesOf base) (← samplesOf cand)
                (← cand.item "higher_is_better")
              pure { key := key, outcome := outcome, interval := interval }
  | _ =>
      pure { key := key, outcome := .invalid
             detail := "duplicate case (" ++ toString records.length ++ " records)" }

/-- The cases of a manifest that the candidate has no record of. -/
def missingCases (cases : List (CaseKey F × List (Value F))) (manifest : List (Value F)) :
    Except Exn (List (CaseResult F)) := do
  let expected ← manifest.mapM caseKey
  let keys ← expected.mapM hashed
  pure ((keys.filter fun key => (findCase key cases).isNone).map fun key =>
    { key := key, outcome := .invalid, detail := "missing from the candidate results" })

def compareRuns (py : Python F) (baseline candidate : List (Value F))
    (manifest : Option (List (Value F)))
    (evidence : Option (Value F -> Except Exn String)) :
    Except Exn (List (CaseResult F)) := do
  let cases ← byCase candidate
  let bases ← baseByCase baseline
  let missing ← missingCases cases (manifest.getD [])
  let compared ← cases.mapM fun e => compareOne py evidence bases e.1 e.2
  pure (missing ++ compared)

/-!
## Pooling
-/

/-- A pooled record: the first record of the case with the samples of all. -/
structure Pooled (F : Type) where
  first : Value F
  samples : List (Value F)
  machines : Nat

/-- Add the samples of a record to the pooled record of its case. -/
def addSamples (key : CaseKey F) (samples : List (Value F)) :
    List (CaseKey F × Pooled F) -> List (CaseKey F × Pooled F)
  | [] => []
  | e :: rest =>
      if e.1.same key then
        (e.1, { e.2 with samples := e.2.samples ++ samples, machines := e.2.machines + 1 })
          :: rest
      else e :: addSamples key samples rest

def poolRecord (py : Python F) (pooled : List (CaseKey F × Pooled F)) (r : Value F) :
    Except Exn (List (CaseKey F × Pooled F)) := do
  let key ← hashed (← caseKey r)
  match findCase key pooled with
  | none => pure (pooled ++ [(key, ⟨r, ← samplesOf r, 1⟩)])
  | some p =>
      if !sameCompat (← compatKey p.first) (← compatKey r) then
        .error (.valueError (py.str (← r.item "bench") ++
          ": incompatible records cannot be pooled"))
      else pure (addSamples key (← samplesOf r) pooled)

/-- A pooled record as it is written. -/
def pooledRecord (py : Python F) (p : Pooled F) : Except Exn (Value F) := do
  let (median, p5, p95) ← py.quantiles p.samples
  let r ← p.first.setItem "samples" (.list p.samples)
  let r ← r.setItem "machines" (.int p.machines)
  let r ← r.setItem "median" median
  let r ← r.setItem "p5" p5
  r.setItem "p95" p95

/-- One baseline from runs on several machines of the same setup. -/
def poolBaseline (py : Python F) (runs : List (List (Value F))) (setup : String) :
    Except Exn (Value F) := do
  let pooled ← runs.flatten.foldlM (poolRecord py) []
  let records ← pooled.mapM fun e => pooledRecord py e.2
  pure (.dict [("schema", .int 1), ("setup", .str setup), ("records", .list records)])

/-!
## Keys
-/

theorem dumps_injective {v w : Value F} (hv : v.Sound) (hw : w.Sound)
    (h : dumps v = dumps w) : v = w := by
  have hread : (Except.ok v : Except Exn (Value F)) = .ok w := by
    rw [← loads_dumps hv, ← loads_dumps hw, h]
  injection hread

omit [FloatText F] in
theorem soundFields_insertEntry {k : String} {v : Value F} (hv : v.Sound)
    {fs : List (String × Value F)} (h : Value.SoundFields fs) :
    Value.SoundFields (OrdMap.insertEntry k v fs) := by
  induction fs with
  | nil => exact ⟨hv, True.intro⟩
  | cons e fs ih =>
      obtain ⟨k', v'⟩ := e
      rw [OrdMap.insertEntry]
      split_ifs
      · exact ⟨hv, h⟩
      · exact ⟨hv, h.2⟩
      · exact ⟨h.1, ih h.2⟩

omit [FloatText F] in
theorem sortFields_sorted (fs : List (String × Value F)) :
    (sortFields fs).Pairwise (fun a b => a.1 < b.1) := by
  induction fs with
  | nil => exact List.Pairwise.nil
  | cons e fs ih => exact OrdMap.insertEntry_sorted e.1 (sortKeys e.2) ih

section

omit [FloatText F]

mutual

theorem sortKeys_sound : forall v : Value F, v.Sound -> (sortKeys v).Sound
  | .none, h => h
  | .bool _, h => h
  | .int _, h => h
  | .float _, h => h
  | .str _, h => h
  | .list xs, h => sortItems_sound xs h
  | .dict fs, h => by
      refine ⟨?_, sortFields_sound fs h.2⟩
      have hlt : ((sortFields fs).map Prod.fst).Pairwise (· < ·) :=
        List.pairwise_map.mpr (sortFields_sorted fs)
      exact hlt.imp ne_of_lt

theorem sortItems_sound : forall xs : List (Value F), Value.SoundItems xs ->
    Value.SoundItems (sortItems xs)
  | [], h => h
  | x :: xs, h => ⟨sortKeys_sound x h.1, sortItems_sound xs h.2⟩

theorem sortFields_sound : forall fs : List (String × Value F), Value.SoundFields fs ->
    Value.SoundFields (sortFields fs)
  | [], h => h
  | (_, v) :: fs, h =>
      soundFields_insertEntry (sortKeys_sound v h.1) (sortFields_sound fs h.2)

end

end

omit [FloatText F] in
/-- A value read from a sound record. -/
theorem item_sound {r v : Value F} (hr : r.Sound) {key : String} (h : r.item key = .ok v) :
    v.Sound := by
  unfold Value.item at h
  split at h
  · split at h
    · injection h with h
      subst h
      rename_i hlookup
      exact Value.soundFields_mem hr.2 (Value.mem_of_lookup hlookup)
    · cases h
  · cases h

omit [FloatText F] in
theorem get_sound {r : Value F} (hr : r.Sound) {key : String} {v : Option (Value F)}
    (h : r.get key = .ok v) : (v.getD .none).Sound := by
  unfold Value.get at h
  split at h
  · injection h with h
    subst h
    cases hlookup : Value.lookup key _ with
    | none => exact True.intro
    | some w => exact Value.soundFields_mem hr.2 (Value.mem_of_lookup hlookup)
  · cases h

theorem caseKey_eq_ok {r : Value F} {k : CaseKey F} : caseKey r = .ok k <->
    exists bench params, r.item "bench" = .ok bench ∧ r.item "params" = .ok params ∧
      k = ⟨bench, dumps (sortKeys params)⟩ := by
  unfold caseKey
  rw [Fallible.bind_eq_ok]
  constructor
  · rintro ⟨bench, hbench, h⟩
    rcases Fallible.bind_eq_ok.mp h with ⟨params, hparams, h⟩
    injection h with h
    exact ⟨bench, params, hbench, hparams, h.symm⟩
  · rintro ⟨bench, params, hbench, hparams, rfl⟩
    refine ⟨bench, hbench, Fallible.bind_eq_ok.mpr ⟨params, hparams, rfl⟩⟩

omit [FloatText F] in
theorem hashed_eq_ok {k k' : CaseKey F} (h : hashed k = .ok k') : k = k' := by
  unfold hashed at h
  split_ifs at h
  injection h

omit [FloatText F] in
theorem compatKey_sound {r : Value F} (hr : r.Sound) {c : List (Value F)}
    (h : compatKey r = .ok c) : Value.SoundItems c := by
  unfold compatKey at h
  rw [Fallible.bind_eq_ok] at h
  rcases h with ⟨compat, hcompat, h⟩
  have hsound := item_sound hr hcompat
  rw [Fallible.mapM_eq_ok] at h
  generalize compatFields = fields at h
  induction h with
  | nil => exact True.intro
  | cons hf _ ih =>
      rcases Fallible.bind_eq_ok.mp hf with ⟨v, hv, hf⟩
      injection hf with hf
      rw [← hf]
      exact ⟨get_sound hsound hv, ih⟩

/-- Two records of one case with equal compatibility fields, as the keys decide it. -/
def Alike (r r' : Value F) : Prop :=
  exists k k' c c', caseKey r = .ok k ∧ caseKey r' = .ok k' ∧ k.same k' = true ∧
    compatKey r = .ok c ∧ compatKey r' = .ok c' ∧ sameCompat c c' = true

theorem same_symm {a b : CaseKey F} (ha : a.bench.Sound) (hb : b.bench.Sound)
    (h : a.same b = true) : b.same a = true := by
  unfold CaseKey.same at h ⊢
  rw [Bool.and_eq_true, beq_iff_eq] at h ⊢
  exact ⟨Value.eq_symm _ _ ha hb h.1, h.2.symm⟩

theorem same_trans {a b c : CaseKey F} (hab : a.same b = true) (hbc : b.same c = true) :
    a.same c = true := by
  unfold CaseKey.same at hab hbc ⊢
  rw [Bool.and_eq_true, beq_iff_eq] at hab hbc ⊢
  exact ⟨Value.eq_trans _ _ _ hab.1 hbc.1, hab.2.trans hbc.2⟩

theorem caseKey_bench_sound {r : Value F} (hr : r.Sound) {k : CaseKey F}
    (h : caseKey r = .ok k) : k.bench.Sound := by
  rcases caseKey_eq_ok.mp h with ⟨bench, params, hbench, _, rfl⟩
  exact item_sound hr hbench

theorem Alike.symm {r r' : Value F} (hr : r.Sound) (hr' : r'.Sound) (h : Alike r r') :
    Alike r' r := by
  rcases h with ⟨k, k', c, c', hk, hk', hsame, hc, hc', hcompat⟩
  exact ⟨k', k, c', c, hk', hk,
    same_symm (caseKey_bench_sound hr hk) (caseKey_bench_sound hr' hk') hsame, hc', hc,
    Value.eqItems_symm _ _ (compatKey_sound hr hc) (compatKey_sound hr' hc') hcompat⟩

theorem Alike.trans {r r' r'' : Value F} (h : Alike r r') (h' : Alike r' r'') :
    Alike r r'' := by
  rcases h with ⟨k, k1, c, c1, hk, hk1, hsame, hc, hc1, hcompat⟩
  rcases h' with ⟨k2, k', c2, c', hk2, hk', hsame', hc2, hc', hcompat'⟩
  rw [hk1] at hk2
  rw [hc1] at hc2
  injection hk2 with hk2
  injection hc2 with hc2
  subst hk2 hc2
  exact ⟨k, k', c, c', hk, hk', same_trans hsame hsame', hc, hc',
    Value.eqItems_trans _ _ _ hcompat hcompat'⟩

/-!
## What is pooled
-/

theorem findCase_eq_some {A : Type} {key : CaseKey F} {entries : List (CaseKey F × A)}
    {a : A} (h : findCase key entries = some a) :
    exists k, (k, a) ∈ entries ∧ k.same key = true := by
  induction entries with
  | nil => cases h
  | cons e rest ih =>
      rw [findCase] at h
      split_ifs at h with hsame
      · injection h with h
        rw [← h]
        exact ⟨e.1, List.mem_cons_self, hsame⟩
      · rcases ih h with ⟨k, hk, hsame'⟩
        exact ⟨k, List.mem_cons_of_mem e hk, hsame'⟩

/-- The records behind a pooled record: the first and those like it. -/
structure PooledFrom (all : List (Value F)) (key : CaseKey F) (p : Pooled F)
    (rest : List (Value F)) : Prop where
  key : caseKey p.first = .ok key
  mem : forall r, r ∈ p.first :: rest -> r ∈ all
  alike : forall r, r ∈ rest -> Alike p.first r
  samples : exists lists, List.Forall₂ (fun r l => samplesOf r = .ok l) (p.first :: rest) lists ∧
    p.samples = lists.flatten
  machines : p.machines = rest.length + 1

/-- The pooled record that takes the samples, or one that stays. -/
theorem mem_addSamples {key : CaseKey F} {samples : List (Value F)}
    {pooled : List (CaseKey F × Pooled F)} {p : Pooled F}
    (hfind : findCase key pooled = some p) {e : CaseKey F × Pooled F}
    (h : e ∈ addSamples key samples pooled) :
    e ∈ pooled ∨ (e.1, p) ∈ pooled ∧ e.1.same key = true ∧
      e.2 = { p with samples := p.samples ++ samples, machines := p.machines + 1 } := by
  induction pooled with
  | nil => cases h
  | cons e' rest ih =>
      rw [addSamples] at h
      rw [findCase] at hfind
      split_ifs at h hfind with hsame
      · injection hfind with hfind
        rcases List.mem_cons.mp h with rfl | h
        · subst hfind
          exact Or.inr ⟨List.mem_cons_self, hsame, rfl⟩
        · exact Or.inl (List.mem_cons_of_mem e' h)
      · rcases List.mem_cons.mp h with rfl | h
        · exact Or.inl List.mem_cons_self
        · rcases ih hfind h with h | ⟨h, hsame', heq⟩
          · exact Or.inl (List.mem_cons_of_mem e' h)
          · exact Or.inr ⟨List.mem_cons_of_mem e' h, hsame', heq⟩

/-- One more record keeps what is behind every pooled record. -/
theorem poolRecord_from {py : Python F} {all : List (Value F)}
    {pooled pooled' : List (CaseKey F × Pooled F)} {r : Value F} (hr : r ∈ all)
    (hpooled : forall e, e ∈ pooled -> exists rest, PooledFrom all e.1 e.2 rest)
    (h : poolRecord py pooled r = .ok pooled') :
    forall e, e ∈ pooled' -> exists rest, PooledFrom all e.1 e.2 rest := by
  unfold poolRecord at h
  rcases Fallible.bind_eq_ok.mp h with ⟨key0, hkey0, h⟩
  rcases Fallible.bind_eq_ok.mp h with ⟨key, hkey, h⟩
  have hkk := hashed_eq_ok hkey
  subst hkk
  split at h
  · rcases Fallible.bind_eq_ok.mp h with ⟨samples, hsamples, h⟩
    injection h with h
    subst h
    intro e he
    rcases List.mem_append.mp he with he | he
    · exact hpooled e he
    · rw [List.mem_singleton] at he
      subst he
      refine ⟨[], hkey0, ?_, ?_, ⟨[samples], ?_, ?_⟩, rfl⟩
      · intro r' hr'
        rw [List.mem_singleton] at hr'
        rw [hr']
        exact hr
      · intro r' hr'
        cases hr'
      · exact List.Forall₂.cons hsamples List.Forall₂.nil
      · simp
  · rename_i p hfind
    rcases Fallible.bind_eq_ok.mp h with ⟨c, hc, h⟩
    rcases Fallible.bind_eq_ok.mp h with ⟨c', hc', h⟩
    split_ifs at h with hcompat
    · rcases Fallible.bind_eq_ok.mp h with ⟨bench, _, h⟩
      cases h
    · rcases Fallible.bind_eq_ok.mp h with ⟨samples, hsamples, h⟩
      injection h with h
      subst h
      intro e he
      rcases mem_addSamples hfind he with he | ⟨hold, hsame, heq⟩
      · exact hpooled e he
      · rcases hpooled _ hold with ⟨rest, hfrom⟩
        refine ⟨rest ++ [r], ?_, ?_, ?_, ?_, ?_⟩
        · rw [heq]
          exact hfrom.key
        · rw [heq]
          intro r' hr'
          rw [← List.cons_append] at hr'
          rcases List.mem_append.mp hr' with hr' | hr'
          · exact hfrom.mem r' hr'
          · rw [List.mem_singleton] at hr'
            rw [hr']
            exact hr
        · rw [heq]
          intro r' hr'
          rcases List.mem_append.mp hr' with hr' | hr'
          · exact hfrom.alike r' hr'
          · rw [List.mem_singleton] at hr'
            rw [hr']
            refine ⟨e.1, key0, c, c', hfrom.key, hkey0, hsame, hc, hc', ?_⟩
            simpa using hcompat
        · rcases hfrom.samples with ⟨lists, hall, hflat⟩
          refine ⟨lists ++ [samples], ?_, ?_⟩
          · rw [heq, ← List.cons_append]
            exact List.rel_append hall (List.Forall₂.cons hsamples List.Forall₂.nil)
          · rw [heq, List.flatten_append, ← hflat]
            simp
        · rw [heq, hfrom.machines, List.length_append, List.length_singleton]

/-- The group behind a pooled record is pairwise alike. -/
theorem PooledFrom.pairwise {all : List (Value F)} {key : CaseKey F} {p : Pooled F}
    {rest : List (Value F)} (h : PooledFrom all key p rest)
    (hsound : forall r, r ∈ all -> r.Sound) : (p.first :: rest).Pairwise Alike := by
  refine List.Pairwise.cons h.alike ?_
  rw [List.pairwise_iff_forall_sublist]
  intro a b hab
  have ha : a ∈ rest := hab.subset List.mem_cons_self
  have hb : b ∈ rest := hab.subset (List.mem_cons_of_mem a List.mem_cons_self)
  exact ((h.alike a ha).symm (hsound _ (h.mem _ List.mem_cons_self))
    (hsound a (h.mem a (List.mem_cons_of_mem _ ha)))).trans (h.alike b hb)

/-!
## What the keys say of the records
-/

/-- A compatibility field of a record, none when it is missing. -/
def compatField (r : Value F) (f : String) : Except Exn (Value F) := do
  let compat ← r.item "compat"
  let v ← compat.get f
  pure (v.getD .none)

/-- Two records of one benchmark with the same parameters, up to the order of keys, and
equal compatibility fields. -/
structure SameMeasurement (r r' : Value F) : Prop where
  bench : exists b b', r.item "bench" = .ok b ∧ r'.item "bench" = .ok b' ∧ b.eq b' = true
  params : exists p p', r.item "params" = .ok p ∧ r'.item "params" = .ok p' ∧
    sortKeys p = sortKeys p'
  compat : forall f, f ∈ compatFields -> exists v v', compatField r f = .ok v ∧
    compatField r' f = .ok v' ∧ v.eq v' = true

theorem compat_of_same {compat compat' : Value F} {fields : List String}
    {c c' : List (Value F)}
    (hc : List.Forall₂ (fun f v => (do
      let v ← compat.get f
      pure (v.getD .none)) = (.ok v : Except Exn (Value F))) fields c)
    (hc' : List.Forall₂ (fun f v => (do
      let v ← compat'.get f
      pure (v.getD .none)) = (.ok v : Except Exn (Value F))) fields c')
    (h : Value.eqItems c c' = true) {f : String} (hf : f ∈ fields) :
    exists v v', (do
      let v ← compat.get f
      pure (v.getD .none)) = (.ok v : Except Exn (Value F)) ∧ (do
      let v ← compat'.get f
      pure (v.getD .none)) = (.ok v' : Except Exn (Value F)) ∧ v.eq v' = true := by
  induction hc generalizing c' with
  | nil => cases hf
  | cons hv _ ih =>
      cases hc' with
      | cons hv' hrest =>
          rw [Value.eqItems, Bool.and_eq_true] at h
          rcases List.mem_cons.mp hf with rfl | hf
          · exact ⟨_, _, hv, hv', h.1⟩
          · exact ih hrest h.2 hf

theorem Alike.sameMeasurement {r r' : Value F} (hr : r.Sound) (hr' : r'.Sound)
    (h : Alike r r') : SameMeasurement r r' := by
  rcases h with ⟨k, k', c, c', hk, hk', hsame, hc, hc', hcompat⟩
  rcases caseKey_eq_ok.mp hk with ⟨b, p, hb, hp, rfl⟩
  rcases caseKey_eq_ok.mp hk' with ⟨b', p', hb', hp', rfl⟩
  unfold CaseKey.same at hsame
  rw [Bool.and_eq_true, beq_iff_eq] at hsame
  refine ⟨⟨b, b', hb, hb', hsame.1⟩, ⟨p, p', hp, hp', ?_⟩, ?_⟩
  · exact dumps_injective (sortKeys_sound p (item_sound hr hp))
      (sortKeys_sound p' (item_sound hr' hp')) hsame.2
  · intro f hf
    rcases Fallible.bind_eq_ok.mp hc with ⟨compat, hitem, hc⟩
    rcases Fallible.bind_eq_ok.mp hc' with ⟨compat', hitem', hc'⟩
    rcases compat_of_same (Fallible.mapM_eq_ok.mp hc) (Fallible.mapM_eq_ok.mp hc') hcompat hf
      with ⟨v, v', hv, hv', heq⟩
    exact ⟨v, v', Fallible.bind_eq_ok.mpr ⟨compat, hitem, hv⟩,
      Fallible.bind_eq_ok.mpr ⟨compat', hitem', hv'⟩, heq⟩

omit [FloatText F] in
theorem setItem_eq_ok {v w v' : Value F} {key : String} (h : v.setItem key w = .ok v') :
    v'.item key = .ok w ∧ forall k, k ≠ key -> v'.item k = v.item k := by
  unfold Value.setItem at h
  split at h
  · injection h with h
    subst h
    refine ⟨by simp [Value.item], ?_⟩
    intro k hk
    simp only [Value.item, Value.lookup_setKey_of_ne (Ne.symm hk)]
  · cases h

omit [FloatText F] in
/-- A written record has the pooled samples. -/
theorem pooledRecord_samples {py : Python F} {p : Pooled F} {r : Value F}
    (h : pooledRecord py p = .ok r) : r.item "samples" = .ok (.list p.samples) := by
  unfold pooledRecord at h
  rcases Fallible.bind_eq_ok.mp h with ⟨⟨median, p5, p95⟩, _, h⟩
  rcases Fallible.bind_eq_ok.mp h with ⟨r1, h1, h⟩
  rcases Fallible.bind_eq_ok.mp h with ⟨r2, h2, h⟩
  rcases Fallible.bind_eq_ok.mp h with ⟨r3, h3, h⟩
  rcases Fallible.bind_eq_ok.mp h with ⟨r4, h4, h⟩
  rw [(setItem_eq_ok h).2 "samples" (by decide), (setItem_eq_ok h4).2 "samples" (by decide),
    (setItem_eq_ok h3).2 "samples" (by decide), (setItem_eq_ok h2).2 "samples" (by decide)]
  exact (setItem_eq_ok h1).1

/-- The records whose samples a pooled document merges. -/
theorem poolBaseline_groups {py : Python F} {runs : List (List (Value F))} {setup : String}
    {doc : Value F} (hsound : forall r, r ∈ runs.flatten -> r.Sound)
    (h : poolBaseline py runs setup = .ok doc) :
    exists records,
      doc = .dict [("schema", .int 1), ("setup", .str setup), ("records", .list records)] ∧
      forall p, p ∈ records -> exists group lists,
        (forall r, r ∈ group -> r ∈ runs.flatten) ∧
        List.Forall₂ (fun r l => samplesOf r = .ok l) group lists ∧
        p.item "samples" = .ok (.list lists.flatten) ∧ group.Pairwise SameMeasurement := by
  unfold poolBaseline at h
  rcases Fallible.bind_eq_ok.mp h with ⟨pooled, hpooled, h⟩
  rcases Fallible.bind_eq_ok.mp h with ⟨records, hrecords, h⟩
  injection h with h
  refine ⟨records, h.symm, ?_⟩
  have hfrom := Fallible.foldlM_rule
    (P := fun pooled => forall e, e ∈ pooled -> exists rest, PooledFrom runs.flatten e.1 e.2 rest)
    (fun s r s' hr hs hstep => poolRecord_from hr hs hstep)
    (fun e he => by cases he) hpooled
  intro p hp
  rcases Fallible.forall₂_mem_right (Fallible.mapM_eq_ok.mp hrecords) hp with ⟨e, he, hrecord⟩
  rcases hfrom e he with ⟨rest, hrest⟩
  rcases hrest.samples with ⟨lists, hall, hflat⟩
  refine ⟨e.2.first :: rest, lists, hrest.mem, hall, ?_, ?_⟩
  · rw [← hflat]
    exact pooledRecord_samples hrecord
  · refine List.Pairwise.imp_of_mem ?_ (hrest.pairwise hsound)
    intro a b ha hb hab
    exact hab.sameMeasurement (hsound a (hrest.mem a ha)) (hsound b (hrest.mem b hb))

/-!
## What is compared
-/

/-- A step that files a record under its key. -/
theorem addKey_eq_ok {A : Type} {r : Value F} {add : CaseKey F -> A} {a : A}
    (h : (do
      let key ← hashed (← caseKey r)
      pure (add key)) = (.ok a : Except Exn A)) :
    exists key, caseKey r = .ok key ∧ a = add key := by
  rcases Fallible.bind_eq_ok.mp h with ⟨key, hkey, h⟩
  rcases Fallible.bind_eq_ok.mp h with ⟨key', hkey', h⟩
  rw [← hashed_eq_ok hkey'] at h
  injection h with h
  exact ⟨key, hkey, h.symm⟩

/-- The entries of a case: its records, with the key of the first. -/
theorem byCase_entry {candidate : List (Value F)} {cases : List (CaseKey F × List (Value F))}
    (h : byCase candidate = .ok cases) :
    forall e, e ∈ cases -> exists r rest, e.2 = r :: rest ∧ caseKey r = .ok e.1 ∧
      forall r', r' ∈ e.2 -> r' ∈ candidate := by
  refine Fallible.foldlM_rule (P := fun cases =>
    forall e, e ∈ cases -> exists r rest, e.2 = r :: rest ∧ caseKey r = .ok e.1 ∧
      forall r', r' ∈ e.2 -> r' ∈ candidate) ?_ (fun e he => by cases he) h
  intro cases r cases' hr hcases hstep
  rcases addKey_eq_ok hstep with ⟨key0, hkey0, rfl⟩
  clear hstep h
  induction cases with
  | nil =>
      intro e he
      rw [addCase, List.mem_singleton] at he
      subst he
      refine ⟨r, [], rfl, hkey0, ?_⟩
      intro r' hr'
      rw [List.mem_singleton] at hr'
      rw [hr']
      exact hr
  | cons e' cases ih =>
      intro e he
      rw [addCase] at he
      split_ifs at he with hsame
      · rcases List.mem_cons.mp he with rfl | he
        · rcases hcases e' List.mem_cons_self with ⟨r0, rest, heq, hkey', hmem⟩
          refine ⟨r0, rest ++ [r], by simp [heq], hkey', ?_⟩
          intro r' hr'
          rcases List.mem_append.mp hr' with hr' | hr'
          · exact hmem r' hr'
          · rw [List.mem_singleton] at hr'
            rw [hr']
            exact hr
        · exact hcases e (List.mem_cons_of_mem e' he)
      · rcases List.mem_cons.mp he with rfl | he
        · exact hcases e List.mem_cons_self
        · exact ih (fun e he => hcases e (List.mem_cons_of_mem e' he)) e he

/-- The baseline record of a case has the key it is filed under. -/
theorem baseByCase_entry {baseline : List (Value F)} {bases : List (CaseKey F × Value F)}
    (hsound : forall r, r ∈ baseline -> r.Sound) (h : baseByCase baseline = .ok bases) :
    forall e, e ∈ bases -> e.2 ∈ baseline ∧ e.1.bench.Sound ∧
      exists key, caseKey e.2 = .ok key ∧ (key = e.1 ∨ e.1.same key = true) := by
  refine Fallible.foldlM_rule (P := fun bases => forall e, e ∈ bases ->
    e.2 ∈ baseline ∧ e.1.bench.Sound ∧
      exists key, caseKey e.2 = .ok key ∧ (key = e.1 ∨ e.1.same key = true)) ?_
    (fun e he => by cases he) h
  intro bases r bases' hr hbases hstep
  rcases addKey_eq_ok hstep with ⟨key, hkey, rfl⟩
  clear hstep h
  induction bases with
  | nil =>
      intro e he
      rw [setBase, List.mem_singleton] at he
      subst he
      exact ⟨hr, caseKey_bench_sound (hsound r hr) hkey, key, hkey, Or.inl rfl⟩
  | cons e' bases ih =>
      intro e he
      rw [setBase] at he
      split_ifs at he with hsame
      · rcases List.mem_cons.mp he with rfl | he
        · exact ⟨hr, (hbases e' List.mem_cons_self).2.1, key, hkey, Or.inr hsame⟩
        · exact hbases e (List.mem_cons_of_mem e' he)
      · rcases List.mem_cons.mp he with rfl | he
        · exact hbases e List.mem_cons_self
        · exact ih (fun e he => hbases e (List.mem_cons_of_mem e' he)) e he

/-- The one record of a case. -/
theorem byCase_one {candidate : List (Value F)} {cases : List (CaseKey F × List (Value F))}
    (hcases : byCase candidate = .ok cases) {e : CaseKey F × List (Value F)} (he : e ∈ cases)
    {cand : Value F} (hrecords : e.2 = [cand]) :
    cand ∈ candidate ∧ caseKey cand = .ok e.1 := by
  rcases byCase_entry hcases e he with ⟨r, rest, hrest, hrkey, hin⟩
  rw [hrecords] at hrest hin
  injection hrest with hr _
  subst hr
  exact ⟨hin cand List.mem_cons_self, hrkey⟩

/-- The baseline record of a case with equal compatibility fields is the same measurement. -/
theorem sameMeasurement_of_find {baseline : List (Value F)} {bases : List (CaseKey F × Value F)}
    (hbase : forall r, r ∈ baseline -> r.Sound) (hbases : baseByCase baseline = .ok bases)
    {key : CaseKey F} {base cand : Value F} (hfind : findCase key bases = some base)
    (hcand : cand.Sound) (hkey : caseKey cand = .ok key) {c c' : List (Value F)}
    (hc : compatKey base = .ok c) (hc' : compatKey cand = .ok c')
    (hcompat : sameCompat c c' = true) : base ∈ baseline ∧ SameMeasurement base cand := by
  rcases findCase_eq_some hfind with ⟨k, hk, hsame⟩
  rcases baseByCase_entry hbase hbases _ hk with ⟨hbin, hksound, key', hkey', hfiled⟩
  have hsame' : key'.same key = true := by
    rcases hfiled with rfl | hfiled
    · exact hsame
    · exact same_trans (same_symm hksound (caseKey_bench_sound (hbase base hbin) hkey') hfiled)
        hsame
  have halike : Alike base cand := ⟨key', key, c, c', hkey', hkey, hsame', hc, hc', hcompat⟩
  exact ⟨hbin, halike.sameMeasurement (hbase base hbin) hcand⟩

/-- The outcomes of a case that was compared. -/
def Outcome.compared : Outcome -> Bool
  | .pass | .regression | .inconclusive => true
  | .invalid | .skipped => false

/-- The outcomes of a case: invalid, skipped for want of a baseline record with equal fields,
or that of a comparison with one. -/
theorem compareOne_cases {py : Python F}
    {evidence : Option (Value F -> Except Exn String)} {bases : List (CaseKey F × Value F)}
    {key : CaseKey F} {records : List (Value F)} {result : CaseResult F}
    (h : compareOne py evidence bases key records = .ok result) :
    result.outcome = .invalid ∨
    (result.outcome = .skipped ∧ exists cand, records = [cand] ∧
      (findCase key bases = none ∨ exists base c c', findCase key bases = some base ∧
        compatKey base = .ok c ∧ compatKey cand = .ok c' ∧ sameCompat c c' = false)) ∨
    exists cand base c c' samples samples' higher, records = [cand] ∧ result.key = key ∧
      findCase key bases = some base ∧ compatKey base = .ok c ∧ compatKey cand = .ok c' ∧
      sameCompat c c' = true ∧ samplesOf base = .ok samples ∧ samplesOf cand = .ok samples' ∧
      cand.item "higher_is_better" = .ok higher ∧
      compareCase py samples samples' higher = .ok (result.outcome, result.interval) := by
  unfold compareOne at h
  split at h
  · rename_i cand
    rcases Fallible.bind_eq_ok.mp h with ⟨problem, _, h⟩
    split_ifs at h with hproblem
    · injection h with h
      subst h
      exact Or.inl rfl
    · split at h
      · rename_i hfind
        injection h with h
        subst h
        exact Or.inr (Or.inl ⟨rfl, cand, rfl, Or.inl hfind⟩)
      · rename_i base hfind
        rcases Fallible.bind_eq_ok.mp h with ⟨c, hc, h⟩
        rcases Fallible.bind_eq_ok.mp h with ⟨c', hc', h⟩
        split_ifs at h with hcompat
        · rcases Fallible.bind_eq_ok.mp h with ⟨note, _, h⟩
          injection h with h
          subst h
          exact Or.inr (Or.inl ⟨rfl, cand, rfl, Or.inr ⟨base, c, c', hfind, hc, hc',
            by simpa using hcompat⟩⟩)
        · rcases Fallible.bind_eq_ok.mp h with ⟨samples, hsamples, h⟩
          rcases Fallible.bind_eq_ok.mp h with ⟨samples', hsamples', h⟩
          rcases Fallible.bind_eq_ok.mp h with ⟨higher, hhigher, h⟩
          rcases Fallible.bind_eq_ok.mp h with ⟨⟨outcome, interval⟩, hcase, h⟩
          injection h with h
          subst h
          exact Or.inr (Or.inr ⟨cand, base, c, c', samples, samples', higher, rfl, rfl, hfind,
            hc, hc', by simpa using hcompat, hsamples, hsamples', hhigher, hcase⟩)
  · injection h with h
    subst h
    exact Or.inl rfl

/-- A case that was compared: its one record and a baseline record with equal fields. -/
theorem compareOne_compared {py : Python F}
    {evidence : Option (Value F -> Except Exn String)} {bases : List (CaseKey F × Value F)}
    {key : CaseKey F} {records : List (Value F)} {result : CaseResult F}
    (h : compareOne py evidence bases key records = .ok result)
    (hcompared : result.outcome.compared = true) :
    exists cand base c c' samples samples' higher, records = [cand] ∧ result.key = key ∧
      findCase key bases = some base ∧ compatKey base = .ok c ∧ compatKey cand = .ok c' ∧
      sameCompat c c' = true ∧ samplesOf base = .ok samples ∧ samplesOf cand = .ok samples' ∧
      cand.item "higher_is_better" = .ok higher ∧
      compareCase py samples samples' higher = .ok (result.outcome, result.interval) := by
  rcases compareOne_cases h with hinvalid | ⟨hskipped, _⟩ | hdata
  · rw [hinvalid] at hcompared
    cases hcompared
  · rw [hskipped] at hcompared
    cases hcompared
  · exact hdata

theorem compareCase_compared {py : Python F} {base cand : List (Value F)} {higher : Value F}
    {result : Outcome × Option (F × F × F)} (h : compareCase py base cand higher = .ok result) :
    result.1.compared = true := by
  unfold compareCase at h
  split_ifs at h
  · injection h with h
    rw [← h]
    rfl
  · rcases Fallible.bind_eq_ok.mp h with ⟨⟨d, lo, hi⟩, _, h⟩
    simp only at h
    split_ifs at h <;> injection h with h <;> rw [← h] <;> rfl

/-- Every case of the candidate has an outcome among the results. -/
theorem compareRuns_outcomes {py : Python F} {baseline candidate : List (Value F)}
    {manifest : Option (List (Value F))}
    {evidence : Option (Value F -> Except Exn String)} {results : List (CaseResult F)}
    (h : compareRuns py baseline candidate manifest evidence = .ok results) :
    exists cases bases, byCase candidate = .ok cases ∧ baseByCase baseline = .ok bases ∧
      forall e, e ∈ cases -> exists result, result ∈ results ∧
        compareOne py evidence bases e.1 e.2 = .ok result := by
  unfold compareRuns at h
  rcases Fallible.bind_eq_ok.mp h with ⟨cases, hcases, h⟩
  rcases Fallible.bind_eq_ok.mp h with ⟨bases, hbases, h⟩
  rcases Fallible.bind_eq_ok.mp h with ⟨missing, _, h⟩
  rcases Fallible.bind_eq_ok.mp h with ⟨compared, hcompares, h⟩
  injection h with h
  subst h
  refine ⟨cases, bases, hcases, hbases, ?_⟩
  intro e he
  rcases Fallible.forall₂_mem_left (Fallible.mapM_eq_ok.mp hcompares) he with
    ⟨result, hresult, hone⟩
  exact ⟨result, List.mem_append_right missing hresult, hone⟩

/-- What is behind an outcome that compares: the one record of its case and a baseline
record of the same measurement. -/
theorem compareRuns_compared {py : Python F} {baseline candidate : List (Value F)}
    {manifest : Option (List (Value F))}
    {evidence : Option (Value F -> Except Exn String)} {results : List (CaseResult F)}
    (hbase : forall r, r ∈ baseline -> r.Sound) (hcand : forall r, r ∈ candidate -> r.Sound)
    (h : compareRuns py baseline candidate manifest evidence = .ok results)
    {result : CaseResult F} (hmem : result ∈ results)
    (hcompared : result.outcome.compared = true) :
    exists base cand samples samples' higher, base ∈ baseline ∧ cand ∈ candidate ∧
      caseKey cand = .ok result.key ∧ SameMeasurement base cand ∧
      samplesOf base = .ok samples ∧ samplesOf cand = .ok samples' ∧
      cand.item "higher_is_better" = .ok higher ∧
      compareCase py samples samples' higher = .ok (result.outcome, result.interval) := by
  unfold compareRuns at h
  rcases Fallible.bind_eq_ok.mp h with ⟨cases, hcases, h⟩
  rcases Fallible.bind_eq_ok.mp h with ⟨bases, hbases, h⟩
  rcases Fallible.bind_eq_ok.mp h with ⟨missing, hmissing, h⟩
  rcases Fallible.bind_eq_ok.mp h with ⟨compared, hcompares, h⟩
  injection h with h
  subst h
  rcases List.mem_append.mp hmem with hmem | hmem
  · -- A case that the manifest expects and that is missing is invalid.
    unfold missingCases at hmissing
    rcases Fallible.bind_eq_ok.mp hmissing with ⟨expected, _, hmissing⟩
    rcases Fallible.bind_eq_ok.mp hmissing with ⟨keys, _, hmissing⟩
    injection hmissing with hmissing
    subst hmissing
    rcases List.mem_map.mp hmem with ⟨key, _, rfl⟩
    cases hcompared
  · rcases Fallible.forall₂_mem_right (Fallible.mapM_eq_ok.mp hcompares) hmem with
      ⟨e, he, hone⟩
    rcases compareOne_compared hone hcompared with
      ⟨cand, base, c, c', samples, samples', higher, hrecords, hkey, hfind, hc, hc', hcompat,
        hsamples, hsamples', hhigher, hcase⟩
    rcases byCase_one hcases he hrecords with ⟨hcin, hrkey⟩
    rcases sameMeasurement_of_find hbase hbases hfind (hcand cand hcin) hrkey hc hc' hcompat with
      ⟨hbin, hsame⟩
    exact ⟨base, cand, samples, samples', higher, hbin, hcin, by rw [hkey]; exact hrkey, hsame,
      hsamples, hsamples', hhigher, hcase⟩

/-- Samples are pooled and cases are compared only among records of one benchmark with the
same parameters and equal compatibility fields; a comparison takes the candidate's
direction.  The records are values as a JSON text gives them. -/
theorem like_with_like (py : Python F) :
    (forall (runs : List (List (Value F))) (setup : String) (doc : Value F),
      (forall r, r ∈ runs.flatten -> r.Sound) -> poolBaseline py runs setup = .ok doc ->
      exists records,
        doc = .dict [("schema", .int 1), ("setup", .str setup), ("records", .list records)] ∧
        forall p, p ∈ records -> exists group lists,
          (forall r, r ∈ group -> r ∈ runs.flatten) ∧
          List.Forall₂ (fun r l => samplesOf r = .ok l) group lists ∧
          p.item "samples" = .ok (.list lists.flatten) ∧ group.Pairwise SameMeasurement) ∧
    (forall (baseline candidate : List (Value F)) (manifest : Option (List (Value F)))
        (evidence : Option (Value F -> Except Exn String)) (results : List (CaseResult F)),
      (forall r, r ∈ baseline -> r.Sound) -> (forall r, r ∈ candidate -> r.Sound) ->
      compareRuns py baseline candidate manifest evidence = .ok results ->
      forall result, result ∈ results -> result.outcome.compared = true ->
      exists base cand samples samples' higher, base ∈ baseline ∧ cand ∈ candidate ∧
        caseKey cand = .ok result.key ∧ SameMeasurement base cand ∧
        samplesOf base = .ok samples ∧ samplesOf cand = .ok samples' ∧
        cand.item "higher_is_better" = .ok higher ∧
        compareCase py samples samples' higher = .ok (result.outcome, result.interval)) := by
  constructor
  · intro runs setup doc hsound h
    exact poolBaseline_groups hsound h
  · intro baseline candidate manifest evidence results hbase hcand h result hmem hcompared
    exact compareRuns_compared hbase hcand h hmem hcompared

/-- A record of one sample, with its unit and direction. -/
def latency (unit : String) (higherIsBetter : Bool) (sample : Int) : Value Half :=
  .dict [
    ("schema", .int 1),
    ("provenance", .dict [("git_sha", .str "0"), ("date", .str "0"), ("run_id", .str "0")]),
    ("compat", .dict (compatFields.map fun f => (f, .none))),
    ("bench", .str "read"),
    ("params", .dict []),
    ("unit", .str unit),
    ("higher_is_better", .bool higherIsBetter),
    ("samples", .list [.int sample])]

/-- The median of 0 and 1, and no bootstrap below ten samples. -/
def smallPython : Python Half where
  str _ := ""
  quantiles _ := .ok (.float .half, .int 0, .int 0)
  bootstrap _ _ _ := .error .zeroDivisionError
  below _ := false
  above _ := false

/-- The records of a document and the samples of each. -/
def pooledSamples (doc : Value Half) : Except Exn (List (List (Value Half))) := do
  match ← doc.item "records" with
  | .list records => records.mapM samplesOf
  | _ => .error .typeError

theorem latency_sound {unit : String} {higherIsBetter : Bool} {sample : Int}
    (h : (Nat.toDigits 10 sample.natAbs).length ≤ Value.maxDigits) :
    (latency unit higherIsBetter sample).Sound := by
  have hschema : (Nat.toDigits 10 1).length ≤ Value.maxDigits := by decide
  simp [latency, Value.Sound, Value.SoundFields, Value.SoundItems, compatFields, h, hschema]

/-- Two records that differ in nothing but the sample are pooled and compared. -/
theorem like_with_like_latencies :
    (exists doc records, poolBaseline smallPython
        [[latency "us" false 0], [latency "us" false 1]] "one" = .ok doc ∧
      doc = .dict [("schema", .int 1), ("setup", .str "one"), ("records", .list records)] ∧
      forall p, p ∈ records -> exists (group : List (Value Half)) (lists : List _),
        (forall r, r ∈ group -> r ∈ [latency "us" false 0, latency "us" false 1]) ∧
        List.Forall₂ (fun r l => samplesOf r = .ok l) group lists ∧
        p.item "samples" = .ok (.list lists.flatten) ∧ group.Pairwise SameMeasurement) ∧
    exists results result, compareRuns smallPython [latency "us" false 0]
        [latency "us" false 1] none none = .ok results ∧ result ∈ results ∧
      exists base cand, base ∈ [latency "us" false 0] ∧ cand ∈ [latency "us" false 1] ∧
        caseKey cand = .ok result.key ∧ SameMeasurement base cand := by
  have hzero : (latency "us" false 0).Sound := latency_sound (by decide)
  have hone : (latency "us" false 1).Sound := latency_sound (by decide)
  rcases like_with_like smallPython with ⟨hpool, hcompare⟩
  constructor
  · rcases hpool [[latency "us" false 0], [latency "us" false 1]] "one" _
      (by
        intro r hr
        rcases List.mem_pair.mp hr with rfl | rfl
        · exact hzero
        · exact hone) rfl with ⟨records, hdoc, hgroups⟩
    refine ⟨_, records, rfl, hdoc, ?_⟩
    intro p hp
    exact hgroups p hp
  · refine ⟨_, _, rfl, List.mem_singleton_self _, ?_⟩
    rcases hcompare [latency "us" false 0] [latency "us" false 1] none none _
      (by
        intro r hr
        rw [List.mem_singleton.mp hr]
        exact hzero)
      (by
        intro r hr
        rw [List.mem_singleton.mp hr]
        exact hone) rfl _ (List.mem_singleton_self _) rfl with
      ⟨base, cand, _, _, _, hbase, hcand, hkey, hsame, _⟩
    exact ⟨base, cand, hbase, hcand, hkey, hsame⟩

/-- Two records that validate accepts, that are pooled and that are compared. -/
def Mixed (base cand : Value Half) : Prop :=
  validate smallPython base = .ok () ∧ validate smallPython cand = .ok () ∧
    (poolBaseline smallPython [[base], [cand]] "one").bind pooledSamples =
      .ok [[.int 0, .int 1]] ∧
    (compareRuns smallPython [base] [cand] none none).map
      (fun results => results.map CaseResult.outcome) = .ok [.inconclusive]

/-- Two records that differ in the unit are mixed, and two that differ in the direction. -/
theorem units_mixed :
    ((latency "us" false 0).item "unit" = .ok (.str "us") ∧
      (latency "GB/s" false 1).item "unit" = .ok (.str "GB/s") ∧
      Mixed (latency "us" false 0) (latency "GB/s" false 1)) ∧
    ((latency "us" false 0).item "higher_is_better" = .ok (.bool false) ∧
      (latency "us" true 1).item "higher_is_better" = .ok (.bool true) ∧
      Mixed (latency "us" false 0) (latency "us" true 1)) := by
  refine ⟨⟨rfl, rfl, ?_⟩, rfl, rfl, ?_⟩
  · exact ⟨by decide +kernel, by decide +kernel, rfl, rfl⟩
  · exact ⟨by decide +kernel, by decide +kernel, rfl, rfl⟩

end Bench
end Dev
end Ostia

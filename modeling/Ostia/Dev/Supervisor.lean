import Ostia.Dev.Guards
import Ostia.Dev.StepPlan
import Ostia.Foundation.Transition

/-!
# The supervisor and its verdict

The supervisor of a pod waits for the code, runs the steps of its plan, waits until the results are
collected and stops.  It writes down what it ran in steps.json, which the guards of the run then
judge.  TERM may come at any time, the code may never arrive and the watchdog may have set its flag
when a step ends.

The commands of the shell that no one can tell apart are one step here; steps.json is written under
another name and renamed, and only the renaming is seen.
-/

namespace Ostia
namespace Dev
namespace Supervisor

open Foundation
open Guards (evaluate Context Verdict)
open JsonText (FloatText integer)
open StepPlan (isLater)
open Watchdog (Line known)

/-!
## What is written down
-/

/-- How a step ended. -/
inductive Result where
  | ok
  | failed
  | timeout
  | terminated
deriving DecidableEq, Repr

def Result.text : Result -> String
  | .ok => "ok"
  | .failed => "failed"
  | .timeout => "timeout"
  | .terminated => "terminated"

/-- A difference of two times. -/
structure Seconds where
  value : Int
  bounded : value.natAbs ≤ 2 ^ 63
deriving DecidableEq

structure Entry where
  name : String
  kind : String
  code : UInt8
  seconds : Seconds
  result : Result
deriving DecidableEq

inductive Phase where
  | waiting
  | running
  | done
  | timeout
  | terminated
  | codeWaitTimeout
deriving DecidableEq, Repr

def Phase.text : Phase -> String
  | .waiting => "waiting"
  | .running => "running"
  | .done => "done"
  | .timeout => "timeout"
  | .terminated => "terminated"
  | .codeWaitTimeout => "code_wait_timeout"

inductive CodeWait where
  | pending
  | ok
  | timeout
deriving DecidableEq, Repr

def CodeWait.text : CodeWait -> String
  | .pending => "pending"
  | .ok => "ok"
  | .timeout => "timeout"

/-- What write_steps writes. -/
structure Report where
  state : Phase
  codeWait : CodeWait
  exit : UInt8
  entries : List Entry
deriving DecidableEq

def codeText (code : UInt8) : List Char := integer code.toNat

def Entry.text (e : Entry) : List Char :=
  "\x7b\"name\": \"".toList ++ e.name.toList ++ "\", \"kind\": \"".toList ++ e.kind.toList ++
    "\", \"code\": ".toList ++ codeText e.code ++ ", \"seconds\": ".toList ++
    integer e.seconds.value ++ ", \"result\": \"".toList ++ e.result.text.toList ++
    "\"\x7d".toList

/-- The entries, with a comma between two of them. -/
def entriesText (entries : List Entry) : List Char :=
  [',', ' '].intercalate (entries.map Entry.text)

def Report.text (r : Report) : String :=
  String.ofList ("\x7b\"schema\": 1, \"state\": \"".toList ++ r.state.text.toList ++
    "\", \"code_wait\": \"".toList ++ r.codeWait.text.toList ++ "\", \"exit\": ".toList ++
    codeText r.exit ++ ", \"steps\": [".toList ++ entriesText r.entries ++ "]\x7d\n".toList)

/-!
## The program
-/

/-- The next command of the program, with the lines of the plan that are not read yet. -/
inductive Point where
  | start
  | waiting
  | expired
  | arrived
  | reading (rest : List Line)
  /-- The variable `running` names the step. -/
  | running (l : Line) (rest : List Line)
  | over (l : Line) (rest : List Line)
  | flagged
  | recorded (l : Line) (code : UInt8) (rest : List Line)
  | written (l : Line) (code : UInt8) (rest : List Line)
  | leaving
  | finishing
  | collecting
  | stopped
deriving DecidableEq

structure State where
  point : Point := .start
  state : Phase := .waiting
  codeWait : CodeWait := .pending
  exit : UInt8 := 0
  entries : List Entry := []
  /-- steps.json, if there is one. -/
  file : Option Report := none
  /-- The steps that have ended, with their exit codes. -/
  log : List (Line × UInt8) := []
deriving DecidableEq

def State.report (s : State) : Report := ⟨s.state, s.codeWait, s.exit, s.entries⟩

def State.write (s : State) (point : Point) : State :=
  { s with point := point, file := some s.report }

inductive Act where
  | write
  | arrive
  | expire
  | readLine
  | ended
  /-- The exit code is read, and the flag of the watchdog. -/
  | record (code : UInt8) (seconds : Seconds) (timedOut : Bool)
  | decide
  | leave
  | collect
  | term (seconds : Seconds)
deriving DecidableEq

/-- write_steps, where the program calls it. -/
def writeStep (plan : List Line) (s : State) : Option State :=
  match s.point with
  | .start => some (s.write .waiting)
  | .expired => some (s.write .stopped)
  | .arrived => some (s.write (.reading plan))
  | .recorded l code rest => some (s.write (.written l code rest))
  | .finishing => some (s.write .collecting)
  | _ => none

/-- The next line: an empty name is passed over, an unknown kind ends the loop. -/
def readStep (s : State) : Option State :=
  match s.point with
  | .reading [] => some { s with point := .leaving }
  | .reading (l :: rest) =>
      if l.name = "" then some { s with point := .reading rest }
      else if known l.kind then some { s with point := .running l rest }
      else some { s with point := .leaving, exit := 3 }
  | _ => none

def recordStep (s : State) (code : UInt8) (seconds : Seconds) (timedOut : Bool) :
    Option State :=
  match s.point with
  | .over l rest =>
      if timedOut then
        some { s with
          point := .flagged
          state := .timeout
          exit := 3
          entries := s.entries ++ [⟨l.name, l.kind, code, seconds, .timeout⟩]
          log := s.log ++ [(l, code)] }
      else
        let result := if code = 0 then Result.ok else .failed
        some { s with
          point := .recorded l code rest
          entries := s.entries ++ [⟨l.name, l.kind, code, seconds, result⟩]
          log := s.log ++ [(l, code)] }
  | _ => none

def isFatal (kind : String) : Bool := kind == "preflight" || kind == "install"

/-- What follows a step that was written down. -/
def decideStep (s : State) : Option State :=
  match s.point with
  | .written l code rest =>
      if code = 0 ∨ l.kind = "report" then some { s with point := .reading rest }
      else if isFatal l.kind then some { s with point := .leaving, exit := 3 }
      else some { s with point := .leaving, exit := code }
  | _ => none

def leaveStep (s : State) : Option State :=
  match s.point with
  | .flagged => some { s with point := .finishing }
  | .leaving =>
      some { s with
        point := .finishing
        state := if s.state = .running then .done else s.state }
  | _ => none

/-- The trap of TERM, which nothing interrupts: a step that runs is written down as ended by it. -/
def termStep (s : State) (seconds : Seconds) : Option State :=
  let entries := match s.point with
    | .running l _ => s.entries ++ [⟨l.name, l.kind, 143, seconds, .terminated⟩]
    | _ => s.entries
  match s.point with
  | .stopped => none
  | _ => some (State.write { s with state := .terminated, exit := 3, entries := entries } .stopped)

def step (plan : List Line) (s : State) : Act -> Option State
  | .write => writeStep plan s
  | .arrive => match s.point with
    | .waiting => some { s with point := .arrived, codeWait := .ok, state := .running }
    | _ => none
  | .expire => match s.point with
    | .waiting =>
        some { s with
          point := .expired, codeWait := .timeout, state := .codeWaitTimeout, exit := 3 }
    | _ => none
  | .readLine => readStep s
  | .ended => match s.point with
    | .running l rest => some { s with point := .over l rest }
    | _ => none
  | .record code seconds timedOut => recordStep s code seconds timedOut
  | .decide => decideStep s
  | .leave => leaveStep s
  | .collect => match s.point with
    | .collecting => some { s with point := .stopped }
    | _ => none
  | .term seconds => termStep s seconds

/-- The states that the supervisor reaches. -/
def Reached (plan : List Line) : State -> Prop :=
  Transition.Reached (step plan) (fun _ _ => True) {}

/-!
## steps.json is JSON
-/

section Json

variable {F : Type}

def codeValue (code : UInt8) : Value F := .int code.toNat

def Entry.value (e : Entry) : Value F :=
  .dict [("name", .str e.name), ("kind", .str e.kind), ("code", codeValue e.code),
    ("seconds", .int e.seconds.value), ("result", .str e.result.text)]

def Report.value (r : Report) : Value F :=
  .dict [("schema", .int 1), ("state", .str r.state.text), ("code_wait", .str r.codeWait.text),
    ("exit", codeValue r.exit), ("steps", .list (r.entries.map Entry.value))]

/-- A text that JSON writes as it is. -/
def PlainText (t : String) : Prop := forall c, c ∈ t.toList -> JsonText.escapeChar c = [c]

instance (t : String) : Decidable (PlainText t) :=
  inferInstanceAs (Decidable (forall c, c ∈ t.toList -> JsonText.escapeChar c = [c]))

theorem quoted_of_plain {t : String} (h : PlainText t) :
    JsonText.quoted t = '"' :: (t.toList ++ ['"']) := by
  have hbody : forall cs : List Char, (forall c, c ∈ cs -> JsonText.escapeChar c = [c]) ->
      cs.flatMap JsonText.escapeChar = cs := by
    intro cs
    induction cs with
    | nil =>
        intro _
        rfl
    | cons c cs ih =>
        intro hcs
        rw [List.forall_mem_cons] at hcs
        rw [List.flatMap_cons, hcs.1, ih hcs.2]
        rfl
  rw [JsonText.quoted, JsonText.body, hbody t.toList h]

/-- An entry as the program makes it. -/
structure Entry.Plain (e : Entry) : Prop where
  name : PlainText e.name
  kind : known e.kind = true

theorem plain_known {kind : String} (h : known kind = true) : PlainText kind := by
  have hall : forall k, k ∈ ["preflight", "install", "build", "command", "report"] ->
      PlainText k := by decide
  exact hall kind (List.contains_iff_mem.mp h)

theorem plain_result (r : Result) : PlainText r.text := by
  cases r with
  | ok => decide
  | failed => decide
  | timeout => decide
  | terminated => decide

theorem plain_phase (p : Phase) : PlainText p.text := by
  cases p with
  | waiting => decide
  | running => decide
  | done => decide
  | timeout => decide
  | terminated => decide
  | codeWaitTimeout => decide

theorem plain_codeWait (w : CodeWait) : PlainText w.text := by
  cases w with
  | pending => decide
  | ok => decide
  | timeout => decide

theorem sound_int {n : Int} (h : n.natAbs < 10 ^ 20) : Value.Sound (.int n : Value F) := by
  rw [Value.Sound]
  have hlen := (Nat.length_toDigits_le_iff (b := 10) (by decide) (by decide)).mpr h
  exact hlen.trans (by decide)

theorem sound_code (code : UInt8) : Value.Sound (codeValue code : Value F) := by
  apply sound_int
  exact Nat.lt_trans code.toNat_lt (by decide)

theorem sound_entry (e : Entry) : Value.Sound (e.value : Value F) := by
  have hseconds : Value.Sound (.int e.seconds.value : Value F) :=
    sound_int (Nat.lt_of_le_of_lt e.seconds.bounded (by decide))
  refine ⟨by simp, ?_⟩
  exact ⟨trivial, trivial, sound_code e.code, hseconds, trivial, trivial⟩

theorem sound_report (r : Report) : Value.Sound (r.value : Value F) := by
  have hentries : forall entries : List Entry,
      Value.SoundItems (entries.map (Entry.value (F := F))) := by
    intro entries
    induction entries with
    | nil => trivial
    | cons e rest ih => exact ⟨sound_entry e, ih⟩
  have hone : Value.Sound (.int 1 : Value F) := sound_int (by decide)
  refine ⟨by simp, ?_⟩
  exact ⟨hone, trivial, trivial, sound_code r.exit, hentries r.entries, trivial⟩

variable [FloatText F]

theorem entry_text {e : Entry} (h : e.Plain) :
    e.text = JsonText.text (e.value : Value F) := by
  have hname : "\x7b\"name\": \"".toList =
      '\x7b' :: (JsonText.quoted "name" ++ [':', ' ', '"']) := by rfl
  have hkind : "\", \"kind\": \"".toList =
      '"' :: ',' :: ' ' :: (JsonText.quoted "kind" ++ [':', ' ', '"']) := by rfl
  have hcode : "\", \"code\": ".toList =
      '"' :: ',' :: ' ' :: (JsonText.quoted "code" ++ [':', ' ']) := by rfl
  have hseconds : ", \"seconds\": ".toList =
      ',' :: ' ' :: (JsonText.quoted "seconds" ++ [':', ' ']) := by rfl
  have hresult : ", \"result\": \"".toList =
      ',' :: ' ' :: (JsonText.quoted "result" ++ [':', ' ', '"']) := by rfl
  have hend : "\"\x7d".toList = ['"', '\x7d'] := by rfl
  unfold Entry.text
  simp only [hname, hkind, hcode, hseconds, hresult, hend, Entry.value, codeValue, JsonText.text,
    JsonText.textMembers,
    quoted_of_plain h.name, quoted_of_plain (plain_known h.kind),
    quoted_of_plain (plain_result e.result), codeText, List.append_assoc, List.cons_append,
    List.nil_append]

/-- The items of a list, with its last bracket. -/
theorem entries_text {entries : List Entry} (h : forall e, e ∈ entries -> e.Plain) :
    '[' :: (entriesText entries ++ [']']) =
      JsonText.text (.list (entries.map Entry.value) : Value F) := by
  have hitems : forall (e : Entry) (rest : List Entry),
      (forall d, d ∈ e :: rest -> d.Plain) ->
        [',', ' '].intercalate ((e :: rest).map Entry.text) ++ [']'] =
          JsonText.text (e.value : Value F) ++
            JsonText.textItems (rest.map (Entry.value (F := F))) := by
    intro e rest
    induction rest generalizing e with
    | nil =>
        intro hplain
        rw [List.map_singleton, List.intercalate_singleton,
          entry_text (F := F) (hplain e List.mem_cons_self)]
        rfl
    | cons d rest ih =>
        intro hplain
        rw [List.forall_mem_cons] at hplain
        rw [List.map_cons, List.map_cons, List.intercalate_cons_cons, <- List.map_cons,
          List.append_assoc, List.append_assoc, ih d hplain.2, entry_text (F := F) hplain.1]
        rfl
  cases entries with
  | nil => rfl
  | cons e rest =>
      unfold entriesText
      rw [hitems e rest h]
      rfl

theorem report_text {r : Report} (h : forall e, e ∈ r.entries -> e.Plain) :
    r.text.toList = JsonText.text (r.value : Value F) ++ ['\n'] := by
  have hschema : "\x7b\"schema\": 1, \"state\": \"".toList =
      '\x7b' :: (JsonText.quoted "schema" ++ [':', ' '] ++ integer 1 ++ [',', ' '] ++
        JsonText.quoted "state" ++ [':', ' ', '"']) := by rfl
  have hwait : "\", \"code_wait\": \"".toList =
      '"' :: ',' :: ' ' :: (JsonText.quoted "code_wait" ++ [':', ' ', '"']) := by rfl
  have hexit : "\", \"exit\": ".toList =
      '"' :: ',' :: ' ' :: (JsonText.quoted "exit" ++ [':', ' ']) := by rfl
  have hsteps : ", \"steps\": [".toList =
      ',' :: ' ' :: (JsonText.quoted "steps" ++ [':', ' ', '[']) := by rfl
  have hend : "]\x7d\n".toList = [']', '\x7d', '\n'] := by rfl
  have hentries := entries_text (F := F) h
  unfold Report.text
  simp only [String.toList_ofList, hschema, hwait, hexit, hsteps, hend, Report.value, codeValue,
    JsonText.text, JsonText.textMembers,
    quoted_of_plain (plain_phase r.state), quoted_of_plain (plain_codeWait r.codeWait),
    codeText, List.append_assoc, List.cons_append, List.nil_append, <- hentries]

/-- What is written is read as what was meant. -/
theorem loads_report {r : Report} (h : forall e, e ∈ r.entries -> e.Plain) :
    JsonText.loads r.text = .ok (r.value : Value F) := by
  have htext := report_text (F := F) h
  have hends : JsonText.Ends ['\n'] := by
    intro c hc
    rw [List.head?_cons, Option.some.injEq] at hc
    rw [<- hc]
    decide
  have hlen : r.text.length = (JsonText.text (r.value : Value F)).length + 1 := by
    rw [<- String.length_toList, htext, List.length_append]
    rfl
  have hvalue := JsonText.value_text (r.value : Value F) (sound_report r)
    (2 * r.text.length + 2) ['\n'] (by omega) hends
  unfold JsonText.loads
  rw [htext, JsonText.skip_text, hvalue]
  rfl

end Json

/-!
## The verdict on a report
-/

section Verdict

variable {F : Type} [FloatText F] (py : Guards.Python F) {ctx : Context}

/-- A step that failed and is no report. -/
def Entry.fails (e : Entry) : Bool := e.code != 0 && e.kind != "report"

/-- The verdict on a step that failed, but for its message. -/
def Blames (e : Entry) (v : Verdict F) : Prop :=
  if isFatal e.kind then v.infra = true ∧ v.testCode = 0
  else v.infra = false ∧ v.testCode = 1 ∧ v.failingStep = some (.str e.name)

theorem code_differs (code : UInt8) :
    (codeValue code : Value F).differs (.int 0) = (code != 0) := by
  have hzero : code.toNat = 0 <-> code = 0 := by
    rw [<- UInt8.toNat_inj]
    rfl
  rw [Bool.eq_iff_iff, bne_iff_ne, ne_eq, <- hzero]
  simp [codeValue, Value.differs, Value.number?, Value.eq, Value.eqNumber, Number.eq]

omit [FloatText F] in
theorem item_name (e : Entry) : (e.value : Value F).item "name" = .ok (.str e.name) := by rfl

omit [FloatText F] in
theorem item_kind (e : Entry) : (e.value : Value F).item "kind" = .ok (.str e.kind) := by rfl

omit [FloatText F] in
theorem item_code (e : Entry) : (e.value : Value F).item "code" = .ok (codeValue e.code) := by rfl

theorem str_differs (s t : String) : (Value.str s : Value F).differs (.str t) = (s != t) := by
  rw [Bool.eq_iff_iff, Guards.differs_str, bne_iff_ne, ne_eq, ne_eq, Value.str.injEq]

/-- The first failure that the guards find is that of the first entry that fails. -/
theorem firstFailure_cons (e : Entry) (rest : List Entry) :
    (e.fails = false -> Guards.firstFailure py ((e :: rest).map Entry.value) =
      Guards.firstFailure py (rest.map Entry.value)) ∧
    (e.fails = true -> exists v,
      Guards.firstFailure py ((e :: rest).map Entry.value) = .ok (some v) ∧ Blames e v) := by
  rw [List.map_cons, Guards.firstFailure, item_code, item_kind, item_name]
  simp only [Fallible.ok_bind, code_differs, str_differs, Entry.fails]
  have hfatal : isFatal e.kind = true <->
      (Value.str e.kind : Value F).eq (.str "preflight") = true ∨
      (Value.str e.kind : Value F).eq (.str "install") = true := by
    simp [isFatal, Guards.eq_str]
  cases hcode : e.code != 0 with
  | false =>
      constructor
      · intro _
        rfl
      · intro h
        cases h
  | true =>
      cases hkind : e.kind != "report" with
      | false =>
          constructor
          · intro _
            rfl
          · intro h
            cases h
      | true =>
          constructor
          · intro h
            cases h
          · intro _
            rw [if_neg (by decide), if_neg (by decide)]
            unfold Blames
            split_ifs with hstep hblame hblame
            · exact ⟨_, rfl, rfl, rfl⟩
            · exact absurd (hfatal.mpr hstep) hblame
            · exact absurd (hfatal.mp hblame) hstep
            · exact ⟨_, rfl, rfl, rfl, rfl⟩

theorem firstFailure_none {entries : List Entry} (h : entries.find? Entry.fails = none) :
    Guards.firstFailure py (entries.map Entry.value) = .ok none := by
  induction entries with
  | nil => rfl
  | cons e rest ih =>
      rw [List.find?_cons] at h
      cases hfails : e.fails with
      | true =>
          rw [hfails] at h
          cases h
      | false =>
          rw [hfails] at h
          rw [(firstFailure_cons py e rest).1 hfails, ih h]

theorem firstFailure_some {entries : List Entry} {e : Entry}
    (h : entries.find? Entry.fails = some e) :
    exists v, Guards.firstFailure py (entries.map Entry.value) = .ok (some v) ∧ Blames e v := by
  induction entries with
  | nil => cases h
  | cons d rest ih =>
      rw [List.find?_cons] at h
      cases hfails : d.fails with
      | true =>
          rw [hfails] at h
          cases h
          exact (firstFailure_cons py _ rest).2 hfails
      | false =>
          rw [hfails] at h
          rw [(firstFailure_cons py d rest).1 hfails]
          exact ih h

/-- The states in which the supervisor stops before the end of its plan. -/
def Phase.early : Phase -> Bool
  | .codeWaitTimeout => true
  | .timeout => true
  | .terminated => true
  | _ => false

/-- No junit file, no memory that ran out and no summary that is expected. -/
structure Bare (ctx : Context) (planned : List String) : Prop where
  oom : ctx.oom = false
  planned : ctx.planned = planned
  summary : ctx.expectSummary = none

/-- What follows in the guards when the reports and the last name of a report are known. -/
def judge (ctx : Context) (r : Report) (reports : List (Value F × Value F))
    (last : Option (Value F)) : Except Exn (Verdict F) := do
  match ← Guards.stepsVerdict py ctx r.value (r.entries.map Entry.value) last with
  | some v => pure { v with reports := reports }
  | none =>
      match ← Guards.outcomeVerdict py ctx (r.entries.map Entry.value) last [] with
      | some v => pure { v with reports := reports }
      | none => pure { reports := reports }

theorem evaluate_report (ctx : Context) (r : Report) : exists reports last,
    evaluate py ctx r.value [] = judge py ctx r reports last := by
  have hnames : forall s, s ∈ r.entries.map (Entry.value (F := F)) ->
      exists name, s.item "name" = .ok (.str name) := by
    intro s hs
    obtain ⟨e, _, rfl⟩ := List.mem_map.mp hs
    exact ⟨e.name, item_name e⟩
  have hkinds : forall s, s ∈ r.entries.map (Entry.value (F := F)) ->
      exists kind, s.item "kind" = .ok kind := by
    intro s hs
    obtain ⟨e, _, rfl⟩ := List.mem_map.mp hs
    exact ⟨_, item_kind e⟩
  have hcodes : forall s, s ∈ r.entries.map (Entry.value (F := F)) ->
      exists code, s.item "code" = .ok code := by
    intro s hs
    obtain ⟨e, _, rfl⟩ := List.mem_map.mp hs
    exact ⟨_, item_code e⟩
  obtain ⟨reports, hreports⟩ := Guards.reportsOf_eq_ok hkinds hcodes hnames
  have hlast : exists last,
      Guards.lastName (r.entries.map (Entry.value (F := F))) = .ok last := by
    unfold Guards.lastName
    cases hget : (r.entries.map (Entry.value (F := F))).getLast? with
    | none => exact ⟨none, rfl⟩
    | some s =>
        obtain ⟨name, hname⟩ := hnames s (List.mem_of_getLast? hget)
        refine ⟨some (.str name), ?_⟩
        simp only [hname, Fallible.ok_bind]
        rfl
  obtain ⟨last, hlast⟩ := hlast
  refine ⟨reports, last, ?_⟩
  have hsteps : (r.value : Value F).get "steps" =
      .ok (some (.list (r.entries.map Entry.value))) := by
    rfl
  unfold evaluate
  simp only [hsteps, Fallible.ok_bind, Option.getD_some, PairFile.iterate, hreports, hlast]
  rfl

omit [FloatText F] in
theorem get_state (r : Report) :
    (r.value : Value F).get "state" = .ok (some (.str r.state.text)) := by rfl

omit [FloatText F] in
theorem get_codeWait (r : Report) :
    (r.value : Value F).get "code_wait" = .ok (some (.str r.codeWait.text)) := by rfl

theorem eq_str_str (s t : String) : (Value.str s : Value F).eq (.str t) = (s == t) := by
  rw [Bool.eq_iff_iff, Guards.eq_str, beq_iff_eq, Value.str.injEq]

/-- A run that stopped early is an infrastructure failure. -/
theorem evaluate_early {planned : List String} (hctx : Bare ctx planned) {r : Report}
    (h : r.state.early = true) :
    exists v, evaluate py ctx r.value [] = .ok v ∧ v.infra = true ∧ v.testCode = 0 := by
  obtain ⟨reports, last, heq⟩ := evaluate_report py ctx r
  have hsteps : exists v, Guards.stepsVerdict py ctx r.value (r.entries.map Entry.value) last =
      .ok (some v) ∧ v.infra = true ∧ v.testCode = 0 := by
    unfold Guards.stepsVerdict
    rw [hctx.oom, get_state, get_codeWait]
    simp only [Bool.false_eq_true, if_false, Fallible.ok_bind, Option.getD_some, eq_str_str]
    split_ifs with hwait htimeout hterminated
    · exact ⟨_, rfl, rfl, rfl⟩
    · exact ⟨_, rfl, rfl, rfl⟩
    · exact ⟨_, rfl, rfl, rfl⟩
    · rw [Bool.or_eq_true, not_or] at hwait
      cases hstate : r.state with
      | codeWaitTimeout =>
          rw [hstate] at hwait
          exact absurd (by decide) hwait.1
      | timeout =>
          rw [hstate] at htimeout
          exact absurd (by decide) htimeout
      | terminated =>
          rw [hstate] at hterminated
          exact absurd (by decide) hterminated
      | waiting =>
          rw [hstate] at h
          cases h
      | running =>
          rw [hstate] at h
          cases h
      | done =>
          rw [hstate] at h
          cases h
  obtain ⟨v, hv, hinfra, hcode⟩ := hsteps
  refine ⟨{ v with reports := reports }, ?_, hinfra, hcode⟩
  rw [heq, judge, hv]
  rfl

/-- A run whose plan was not stopped is judged by its entries. -/
theorem stepsVerdict_late {planned : List String} (hctx : Bare ctx planned) {r : Report}
    (h : r.state.early = false) (hwait : r.codeWait ≠ .timeout) (last : Option (Value F)) :
    Guards.stepsVerdict py ctx r.value (r.entries.map Entry.value) last =
      Guards.firstFailure py (r.entries.map Entry.value) := by
  have hstate : r.state.text ≠ "code_wait_timeout" ∧ r.state.text ≠ "timeout" ∧
      r.state.text ≠ "terminated" := by
    cases hstate : r.state with
    | codeWaitTimeout =>
        rw [hstate] at h
        cases h
    | timeout =>
        rw [hstate] at h
        cases h
    | terminated =>
        rw [hstate] at h
        cases h
    | waiting => decide
    | running => decide
    | done => decide
  have hcode : r.codeWait.text ≠ "timeout" := by
    cases hcode : r.codeWait with
    | timeout => exact absurd hcode hwait
    | pending => decide
    | ok => decide
  unfold Guards.stepsVerdict
  rw [hctx.oom, get_state, get_codeWait]
  simp only [Bool.false_eq_true, if_false, Fallible.ok_bind, Option.getD_some, eq_str_str,
    beq_false_of_ne hstate.1, beq_false_of_ne hstate.2.1, beq_false_of_ne hstate.2.2,
    beq_false_of_ne hcode, Bool.or_self]

theorem evaluate_failed {planned : List String} (hctx : Bare ctx planned) {r : Report}
    (h : r.state.early = false) (hwait : r.codeWait ≠ .timeout) {e : Entry}
    (hfind : r.entries.find? Entry.fails = some e) :
    exists v, evaluate py ctx r.value [] = .ok v ∧ Blames e v := by
  obtain ⟨reports, last, heq⟩ := evaluate_report py ctx r
  obtain ⟨v, hv, hblames⟩ := firstFailure_some py hfind
  refine ⟨{ v with reports := reports }, ?_, hblames⟩
  rw [heq, judge, stepsVerdict_late py hctx h hwait, hv]
  rfl

omit [FloatText F] in
theorem mapM_names (entries : List Entry) :
    (entries.map (Entry.value (F := F))).mapM (fun s => s.item "name") =
      .ok ((entries.map Entry.name).map Value.str) := by
  induction entries with
  | nil => rfl
  | cons e rest ih =>
      rw [List.map_cons, List.mapM_cons, item_name, ih]
      rfl

omit [FloatText F] in
theorem nameSet_names (names : List String) :
    Guards.nameSet (names.map (Value.str (F := F))) = .ok (names.map Value.str) := by
  unfold Guards.nameSet
  induction names with
  | nil => rfl
  | cons n rest ih =>
      rw [List.map_cons, List.mapM_cons, ih]
      rfl

/-- A plan that was not run to its end, although no step failed, is an infrastructure failure. -/
theorem evaluate_short {planned : List String} (hctx : Bare ctx planned) {r : Report}
    (h : r.state.early = false) (hwait : r.codeWait ≠ .timeout)
    (hfind : r.entries.find? Entry.fails = none) (hnames : r.entries.map Entry.name ≠ planned) :
    exists v, evaluate py ctx r.value [] = .ok v ∧ v.infra = true ∧ v.testCode = 0 := by
  obtain ⟨reports, last, heq⟩ := evaluate_report py ctx r
  have hplanned : Guards.asPlanned ((r.entries.map Entry.name).map (Value.str (F := F)))
      ctx.planned = false := by
    rw [hctx.planned, Bool.eq_false_iff, ne_eq, Guards.asPlanned_iff]
    intro hsame
    apply hnames
    exact List.map_injective_iff.mpr (fun a b hab => Value.str.inj hab) hsame
  have houtcome : exists v, Guards.outcomeVerdict py ctx (r.entries.map Entry.value) last [] =
      .ok (some v) ∧ v.infra = true ∧ v.testCode = 0 := by
    unfold Guards.outcomeVerdict
    simp only [mapM_names, Fallible.ok_bind, hplanned, Bool.not_false, if_true, nameSet_names]
    split_ifs
    · exact ⟨_, rfl, rfl, rfl⟩
    · exact ⟨_, rfl, rfl, rfl⟩
  obtain ⟨v, hv, hinfra, hcode⟩ := houtcome
  refine ⟨{ v with reports := reports }, ?_, hinfra, hcode⟩
  rw [heq, judge, stepsVerdict_late py hctx h hwait, firstFailure_none py hfind]
  simp only [Fallible.ok_bind, hv]
  rfl

theorem evaluate_passes {planned : List String} (hctx : Bare ctx planned) {r : Report}
    (h : r.state.early = false) (hwait : r.codeWait ≠ .timeout)
    (hfind : r.entries.find? Entry.fails = none) (hnames : r.entries.map Entry.name = planned) :
    exists v, evaluate py ctx r.value [] = .ok v ∧ v.infra = false ∧ v.testCode = 0 := by
  obtain ⟨reports, last, heq⟩ := evaluate_report py ctx r
  have hkinds : forall s, s ∈ r.entries.map (Entry.value (F := F)) ->
      exists kind, s.item "kind" = .ok kind := by
    intro s hs
    obtain ⟨e, _, rfl⟩ := List.mem_map.mp hs
    exact ⟨_, item_kind e⟩
  have hsummary : Guards.summaryOk ctx = true := by
    unfold Guards.summaryOk
    rw [hctx.summary]
  have houtcome : Guards.outcomeVerdict py ctx (r.entries.map Entry.value) last [] = .ok none := by
    rw [Guards.outcomeVerdict_none hkinds, mapM_names, hnames, hctx.planned]
    exact ⟨rfl, hsummary, fun j hj => (List.not_mem_nil hj).elim⟩
  refine ⟨{ reports := reports }, ?_, rfl, rfl⟩
  rw [heq, judge, stepsVerdict_late py hctx h hwait, firstFailure_none py hfind]
  simp only [Fallible.ok_bind, houtcome]
  rfl

end Verdict

/-!
## What a run keeps
-/

/-- A line whose name a step may have. -/
def Named (l : Line) : Prop := l.name ≠ "" ∧ l.name.toList.all isLater = true

theorem escapeChar_of_isLater {c : Char} (h : isLater c = true) :
    JsonText.escapeChar c = [c] := by
  have hne : forall d : Char, isLater d = false -> c ≠ d := by
    intro d hd heq
    rw [heq, hd] at h
    cases h
  have hbounds : 0x20 ≤ c.toNat ∧ c.toNat ≤ 0x7e := by
    simp only [isLater, StepPlan.isInitial, Char.isDigit, Bool.or_eq_true, Bool.and_eq_true,
      decide_eq_true_eq, beq_iff_eq] at h
    rcases h with (((⟨hlow, hhigh⟩ | ⟨hlow, hhigh⟩) | rfl) | rfl) | rfl
    · have h1 : 97 ≤ c.toNat := hlow
      have h2 : c.toNat ≤ 122 := hhigh
      omega
    · have h1 : 48 ≤ c.toNat := hlow
      have h2 : c.toNat ≤ 57 := hhigh
      omega
    · decide
    · decide
    · decide
  unfold JsonText.escapeChar
  rw [if_neg (hne _ (by decide)), if_neg (hne _ (by decide)), if_neg (hne _ (by decide)),
    if_neg (hne _ (by decide)), if_neg (hne _ (by decide)), if_neg (hne _ (by decide)),
    if_neg (hne _ (by decide)), if_pos hbounds]

theorem plain_name {name : String} (h : name.toList.all isLater = true) : PlainText name :=
  fun c hc => escapeChar_of_isLater (List.all_eq_true.mp h c hc)

/-- A step that ended with an error and is no report. -/
def fails (e : Line × UInt8) : Bool := e.2 != 0 && e.1.kind != "report"

/-- No step failed but reports. -/
def Clean (log : List (Line × UInt8)) : Prop := log.find? fails = none

/-- An entry of a step that ended. -/
def Records (e : Entry) (step : Line × UInt8) : Prop :=
  e.name = step.1.name ∧ e.kind = step.1.kind ∧ e.code = step.2

/-- Entries in the order of the plan, from its beginning. -/
structure Good (plan : List Line) (r : Report) : Prop where
  ordered : r.entries.map Entry.name <+: plan.map Line.name
  plain : forall e, e ∈ r.entries -> e.Plain

/-- The loop has ended without a signal: all steps were run, or one failed, or the next one is of
an unknown kind. -/
def Settled (plan : List Line) (log : List (Line × UInt8)) : Prop :=
  (log.map Prod.fst = plan ∧ Clean log) ∨
    (exists before l code, log = before ++ [(l, code)] ∧ Clean before ∧
      fails (l, code) = true ∧ known l.kind = true) ∨
    (Clean log ∧ exists l rest, plan = log.map Prod.fst ++ l :: rest ∧ known l.kind = false)

def Running (s : State) : Prop := s.state = .running ∧ s.codeWait = .ok

/-- The loop has ended: the watchdog ended it, or it has settled. -/
def Finished (plan : List Line) (s : State) : Prop :=
  s.state = .timeout ∨ (s.state = .done ∧ s.codeWait = .ok ∧ Settled plan s.log)

/-- What is known where the program stands. -/
def Placed (plan : List Line) (s : State) : Prop :=
  match s.point with
  | .start => s.log = [] ∧ s.entries = [] ∧ s.state = .waiting
  | .waiting => s.log = [] ∧ s.entries = [] ∧ s.state = .waiting
  | .expired => s.state = .codeWaitTimeout
  | .arrived => s.log = [] ∧ s.entries = [] ∧ Running s
  | .reading rest => Running s ∧ Clean s.log ∧ plan = s.log.map Prod.fst ++ rest
  | .running l rest =>
      Running s ∧ Clean s.log ∧ plan = s.log.map Prod.fst ++ l :: rest ∧ known l.kind = true
  | .over l rest =>
      Running s ∧ Clean s.log ∧ plan = s.log.map Prod.fst ++ l :: rest ∧ known l.kind = true
  | .flagged => s.state = .timeout
  | .recorded l code rest => Running s ∧ exists before, Clean before ∧
      s.log = before ++ [(l, code)] ∧ plan = before.map Prod.fst ++ l :: rest ∧
        known l.kind = true
  | .written l code rest => Running s ∧ exists before, Clean before ∧
      s.log = before ++ [(l, code)] ∧ plan = before.map Prod.fst ++ l :: rest ∧
        known l.kind = true
  | .leaving => Running s ∧ Settled plan s.log
  | .finishing => Finished plan s
  | .collecting => Finished plan s ∧ s.file = some s.report
  | .stopped => (s.state.early = true ∨ Finished plan s) ∧ s.file = some s.report

structure Inv (plan : List Line) (s : State) : Prop where
  placed : Placed plan s
  entries : s.state ≠ .terminated -> List.Forall₂ Records s.entries s.log
  good : Good plan s.report
  file : forall r, s.file = some r -> Good plan r

theorem inv_init (plan : List Line) : Inv plan {} := by
  constructor
  · exact ⟨rfl, rfl, rfl⟩
  · intro _
    exact List.Forall₂.nil
  · exact ⟨List.nil_prefix, fun e he => (List.not_mem_nil he).elim⟩
  · intro r hr
    cases hr

section Step

variable {plan : List Line} {s s' : State}

/-- A step that changes neither the entries nor the file keeps the rest. -/
theorem Inv.move (h : Inv plan s) (hentries : s'.entries = s.entries) (hlog : s'.log = s.log)
    (hfile : s'.file = s.file) (hstate : s.state = .terminated -> s'.state = .terminated)
    (hplaced : Placed plan s') : Inv plan s' := by
  constructor
  · exact hplaced
  · intro hnot
    rw [hentries, hlog]
    exact h.entries fun heq => hnot (hstate heq)
  · have hgood : s'.report.entries = s.report.entries := hentries
    constructor
    · rw [hgood]
      exact h.good.ordered
    · rw [hgood]
      exact h.good.plain
  · intro r hr
    exact h.file r (hfile ▸ hr)

theorem Inv.write (h : Inv plan s) {point : Point} (hplaced : Placed plan (s.write point)) :
    Inv plan (s.write point) := by
  constructor
  · exact hplaced
  · exact h.entries
  · exact h.good
  · intro r hr
    cases hr
    exact h.good

theorem writeStep_inv (h : Inv plan s) (hstep : writeStep plan s = some s') : Inv plan s' := by
  have hplaced := h.placed
  unfold writeStep at hstep
  unfold Placed at hplaced
  split at hstep
  · rename_i hpoint
    rw [hpoint] at hplaced
    cases hstep
    exact h.write hplaced
  · rename_i hpoint
    rw [hpoint] at hplaced
    cases hstep
    apply h.write
    refine ⟨Or.inl ?_, rfl⟩
    show s.state.early = true
    rw [show s.state = .codeWaitTimeout from hplaced]
    rfl
  · rename_i hpoint
    rw [hpoint] at hplaced
    cases hstep
    apply h.write
    refine ⟨hplaced.2.2, ?_, ?_⟩
    · show Clean s.log
      rw [hplaced.1]
      rfl
    · show plan = s.log.map Prod.fst ++ plan
      rw [hplaced.1]
      rfl
  · rename_i l code rest hpoint
    rw [hpoint] at hplaced
    cases hstep
    exact h.write hplaced
  · rename_i hpoint
    rw [hpoint] at hplaced
    cases hstep
    exact h.write ⟨hplaced, rfl⟩
  · cases hstep

theorem not_terminated_of_running (h : Running s) :
    s.state = .terminated -> s'.state = .terminated := by
  intro hterm
  rw [h.1] at hterm
  cases hterm

theorem readStep_inv (hplan : forall l, l ∈ plan -> Named l) (h : Inv plan s)
    (hstep : readStep s = some s') : Inv plan s' := by
  have hplaced := h.placed
  unfold readStep at hstep
  unfold Placed at hplaced
  split at hstep
  · rename_i hpoint
    rw [hpoint] at hplaced
    cases hstep
    obtain ⟨hrunning, hclean, heq⟩ := hplaced
    rw [List.append_nil] at heq
    exact h.move rfl rfl rfl (not_terminated_of_running hrunning)
      ⟨hrunning, Or.inl ⟨heq.symm, hclean⟩⟩
  · rename_i l rest hpoint
    rw [hpoint] at hplaced
    obtain ⟨hrunning, hclean, heq⟩ := hplaced
    have hl : Named l := by
      apply hplan
      rw [heq]
      exact List.mem_append_right _ List.mem_cons_self
    rw [if_neg hl.1] at hstep
    split_ifs at hstep with hknown
    · cases hstep
      exact h.move rfl rfl rfl (not_terminated_of_running hrunning)
        ⟨hrunning, hclean, heq, hknown⟩
    · cases hstep
      exact h.move rfl rfl rfl (not_terminated_of_running hrunning)
        ⟨hrunning, Or.inr (Or.inr ⟨hclean, l, rest, heq, Bool.not_eq_true _ ▸ hknown⟩)⟩
  · cases hstep

theorem names_of_records {entries : List Entry} {log : List (Line × UInt8)}
    (h : List.Forall₂ Records entries log) :
    entries.map Entry.name = (log.map Prod.fst).map Line.name := by
  induction h with
  | nil => rfl
  | cons hrecords _ ih =>
      rw [List.map_cons, List.map_cons, List.map_cons, ih, hrecords.1]

/-- The next line of the plan is the next entry. -/
theorem Good.snoc {entries : List Entry} {e : Entry} {before : List (Line × UInt8)} {l : Line}
    {rest : List Line} (hplan : forall l, l ∈ plan -> Named l)
    (hentries : List.Forall₂ Records entries before) (hplain : forall d, d ∈ entries -> d.Plain)
    (heq : plan = before.map Prod.fst ++ l :: rest) (hname : e.name = l.name)
    (hkind : e.kind = l.kind) (hknown : known l.kind = true) {r : Report}
    (hr : r.entries = entries ++ [e]) : Good plan r := by
  have hl : Named l := by
    apply hplan
    rw [heq]
    exact List.mem_append_right _ List.mem_cons_self
  constructor
  · rw [hr, heq, List.map_append, List.map_append, names_of_records hentries, List.map_cons,
      List.map_nil, List.map_cons, hname]
    exact ⟨rest.map Line.name, by simp⟩
  · intro d hd
    rw [hr] at hd
    cases List.mem_append.mp hd with
    | inl hd => exact hplain d hd
    | inr hd =>
        rw [List.mem_singleton.mp hd]
        constructor
        · rw [hname]
          exact plain_name hl.2
        · rw [hkind]
          exact hknown

theorem recordStep_inv (hplan : forall l, l ∈ plan -> Named l) (h : Inv plan s) {code : UInt8}
    {seconds : Seconds} {timedOut : Bool} (hstep : recordStep s code seconds timedOut = some s') :
    Inv plan s' := by
  have hplaced := h.placed
  unfold recordStep at hstep
  unfold Placed at hplaced
  split at hstep
  · rename_i l rest hpoint
    rw [hpoint] at hplaced
    obtain ⟨hrunning, hclean, heq, hknown⟩ := hplaced
    have hentries : List.Forall₂ Records s.entries s.log := by
      apply h.entries
      rw [hrunning.1]
      decide
    have hsnoc : forall result, List.Forall₂ Records
        (s.entries ++ [⟨l.name, l.kind, code, seconds, result⟩]) (s.log ++ [(l, code)]) :=
      fun result => List.rel_append hentries (List.Forall₂.cons ⟨rfl, rfl, rfl⟩ List.Forall₂.nil)
    have hnext : forall result, Inv plan { s with
        point := .recorded l code rest
        entries := s.entries ++ [⟨l.name, l.kind, code, seconds, result⟩]
        log := s.log ++ [(l, code)] } := by
      intro result
      constructor
      · exact ⟨hrunning, s.log, hclean, rfl, heq, hknown⟩
      · intro _
        exact hsnoc _
      · exact Good.snoc hplan hentries h.good.plain heq rfl rfl hknown rfl
      · exact h.file
    split_ifs at hstep
    · cases hstep
      constructor
      · rfl
      · intro _
        exact hsnoc _
      · exact Good.snoc hplan hentries h.good.plain heq rfl rfl hknown rfl
      · exact h.file
    · cases hstep
      exact hnext .ok
    · cases hstep
      exact hnext .failed
  · cases hstep

theorem clean_snoc {before : List (Line × UInt8)} {l : Line} {code : UInt8} (h : Clean before)
    (hok : code = 0 ∨ l.kind = "report") : Clean (before ++ [(l, code)]) := by
  unfold Clean at h ⊢
  rw [List.find?_append, h, Option.none_or, List.find?_cons]
  have hfails : fails (l, code) = false := by
    unfold fails
    cases hok with
    | inl hcode => simp [hcode]
    | inr hkind => simp [hkind]
  rw [hfails]
  rfl

theorem decideStep_inv (h : Inv plan s) (hstep : decideStep s = some s') : Inv plan s' := by
  have hplaced := h.placed
  unfold decideStep at hstep
  unfold Placed at hplaced
  split at hstep
  · rename_i l code rest hpoint
    rw [hpoint] at hplaced
    obtain ⟨hrunning, before, hclean, hlog, heq, hknown⟩ := hplaced
    have hfails : ¬ (code = 0 ∨ l.kind = "report") -> Settled plan s.log := by
      intro hnot
      rw [not_or] at hnot
      exact Or.inr (Or.inl ⟨before, l, code, hlog, hclean, by simp [fails, hnot], hknown⟩)
    split_ifs at hstep with hok hfatal
    · cases hstep
      refine h.move rfl rfl rfl (not_terminated_of_running hrunning) ⟨hrunning, ?_, ?_⟩
      · show Clean s.log
        rw [hlog]
        exact clean_snoc hclean hok
      · show plan = s.log.map Prod.fst ++ rest
        rw [hlog, heq]
        simp
    · cases hstep
      exact h.move rfl rfl rfl (not_terminated_of_running hrunning) ⟨hrunning, hfails hok⟩
    · cases hstep
      exact h.move rfl rfl rfl (not_terminated_of_running hrunning) ⟨hrunning, hfails hok⟩
  · cases hstep

theorem leaveStep_inv (h : Inv plan s) (hstep : leaveStep s = some s') : Inv plan s' := by
  have hplaced := h.placed
  unfold leaveStep at hstep
  unfold Placed at hplaced
  split at hstep
  · rename_i hpoint
    rw [hpoint] at hplaced
    cases hstep
    exact h.move rfl rfl rfl id (Or.inl hplaced)
  · rename_i hpoint
    rw [hpoint] at hplaced
    cases hstep
    refine h.move rfl rfl rfl (not_terminated_of_running hplaced.1)
      (Or.inr ⟨?_, hplaced.1.2, hplaced.2⟩)
    show (if s.state = .running then Phase.done else s.state) = .done
    rw [if_pos hplaced.1.1]
  · cases hstep

/-- TERM leaves the entries of a prefix of the plan. -/
theorem termStep_inv (hplan : forall l, l ∈ plan -> Named l) (h : Inv plan s) {seconds : Seconds}
    (hstep : termStep s seconds = some s') : Inv plan s' := by
  have hplaced := h.placed
  unfold Placed at hplaced
  have hwritten : forall entries : List Entry,
      Good plan ⟨.terminated, s.codeWait, 3, entries⟩ ->
        Inv plan (State.write { s with state := .terminated, exit := 3, entries := entries }
          .stopped) := by
    intro entries hgood
    constructor
    · exact ⟨Or.inl rfl, rfl⟩
    · intro hnot
      exact absurd rfl hnot
    · exact hgood
    · intro r hr
      cases hr
      exact hgood
  have hsame : Good plan ⟨.terminated, s.codeWait, 3, s.entries⟩ :=
    ⟨h.good.ordered, h.good.plain⟩
  unfold termStep at hstep
  simp only at hstep
  split at hstep
  · cases hstep
  · cases hstep
    split
    · rename_i l rest hpoint
      rw [hpoint] at hplaced
      obtain ⟨hrunning, _, heq, hknown⟩ := hplaced
      apply hwritten
      have hentries : List.Forall₂ Records s.entries s.log := by
        apply h.entries
        rw [hrunning.1]
        decide
      exact Good.snoc hplan hentries h.good.plain heq rfl rfl hknown rfl
    · exact hwritten s.entries hsame

theorem step_inv (hplan : forall l, l ∈ plan -> Named l) (h : Inv plan s) {a : Act}
    (hstep : step plan s a = some s') : Inv plan s' := by
  have hplaced := h.placed
  unfold Placed at hplaced
  cases a with
  | write => exact writeStep_inv h hstep
  | arrive =>
      simp only [step] at hstep
      split at hstep
      · rename_i hpoint
        rw [hpoint] at hplaced
        cases hstep
        refine h.move rfl rfl rfl ?_ ⟨hplaced.1, hplaced.2.1, rfl, rfl⟩
        intro hterm
        rw [hplaced.2.2] at hterm
        cases hterm
      · cases hstep
  | expire =>
      simp only [step] at hstep
      split at hstep
      · rename_i hpoint
        rw [hpoint] at hplaced
        cases hstep
        refine h.move rfl rfl rfl ?_ rfl
        intro hterm
        rw [hplaced.2.2] at hterm
        cases hterm
      · cases hstep
  | readLine => exact readStep_inv hplan h hstep
  | ended =>
      simp only [step] at hstep
      split at hstep
      · rename_i l rest hpoint
        rw [hpoint] at hplaced
        cases hstep
        exact h.move rfl rfl rfl id hplaced
      · cases hstep
  | record code seconds timedOut => exact recordStep_inv hplan h hstep
  | decide => exact decideStep_inv h hstep
  | leave => exact leaveStep_inv h hstep
  | collect =>
      simp only [step] at hstep
      split at hstep
      · rename_i hpoint
        rw [hpoint] at hplaced
        cases hstep
        exact h.move rfl rfl rfl id ⟨Or.inr hplaced.1, hplaced.2⟩
      · cases hstep
  | term seconds => exact termStep_inv hplan h hstep

end Step

theorem inv_of_reached {plan : List Line} (hplan : forall l, l ∈ plan -> Named l) {s : State}
    (h : Reached plan s) : Inv plan s :=
  h.invariant (inv_init plan) fun _ _ _ _ hinv _ hstep => step_inv hplan hinv hstep

/-!
## The verdict on a run
-/

/-- The first step that failed and is no report. -/
def firstFailing (log : List (Line × UInt8)) : Option (Line × UInt8) := log.find? fails

theorem find_records {entries : List Entry} {log : List (Line × UInt8)}
    (h : List.Forall₂ Records entries log) :
    (firstFailing log = none -> entries.find? Entry.fails = none) ∧
      forall step, firstFailing log = some step ->
        exists e, entries.find? Entry.fails = some e ∧ Records e step := by
  unfold firstFailing
  induction h with
  | nil => exact ⟨fun _ => rfl, fun step hstep => by cases hstep⟩
  | cons hrecords _ ih =>
      rename_i e step entries log _
      have hfails : Entry.fails e = fails step := by
        unfold Entry.fails fails
        rw [hrecords.2.1, hrecords.2.2]
      rw [List.find?_cons, List.find?_cons, hfails]
      cases hstep : fails step with
      | true =>
          refine ⟨fun hnone => (by cases hnone), ?_⟩
          intro step' heq
          cases heq
          exact ⟨e, rfl, hrecords⟩
      | false => exact ih

section Matches

variable {F : Type} [FloatText F]

/-- The verdict says what the run did. -/
structure Matches (plan : List Line) (s : State) (v : Verdict F) : Prop where
  /-- The run was stopped, or a preflight or an install failed first, or nothing failed before a
  step of an unknown kind. -/
  infra : v.infra = true <->
    s.state.early = true ∨
      (exists l code, firstFailing s.log = some (l, code) ∧
        (l.kind = "preflight" ∨ l.kind = "install")) ∨
      (firstFailing s.log = none ∧
        exists l rest, plan = s.log.map Prod.fst ++ l :: rest ∧ known l.kind = false)
  test : forall name, v.testCode ≠ 0 ∧ v.failingStep = some (.str name) <->
    s.state.early = false ∧ exists l code, firstFailing s.log = some (l, code) ∧ l.name = name ∧
      (l.kind = "build" ∨ l.kind = "command")
  pass : v.passed = true <->
    s.state.early = false ∧ s.log.map Prod.fst = plan ∧ firstFailing s.log = none

theorem isFatal_iff {kind : String} :
    isFatal kind = true <-> kind = "preflight" ∨ kind = "install" := by
  unfold isFatal
  rw [Bool.or_eq_true, beq_iff_eq, beq_iff_eq]

/-- A step that failed and is no report is of one of four kinds. -/
theorem kind_of_fails {l : Line} {code : UInt8} (h : fails (l, code) = true)
    (hknown : known l.kind = true) : isFatal l.kind = true ∨ l.kind = "build" ∨
      l.kind = "command" := by
  have hreport : l.kind ≠ "report" := by
    unfold fails at h
    rw [Bool.and_eq_true, bne_iff_ne, bne_iff_ne] at h
    exact h.2
  have hmem := List.contains_iff_mem.mp hknown
  simp only [List.mem_cons, List.not_mem_nil, or_false] at hmem
  rcases hmem with hk | hk | hk | hk | hk
  · exact Or.inl (isFatal_iff.mpr (Or.inl hk))
  · exact Or.inl (isFatal_iff.mpr (Or.inr hk))
  · exact Or.inr (Or.inl hk)
  · exact Or.inr (Or.inr hk)
  · exact absurd hk hreport

omit [FloatText F] in
theorem matches_early {plan : List Line} {s : State} {v : Verdict F}
    (hearly : s.state.early = true) (hinfra : v.infra = true) (hcode : v.testCode = 0) :
    Matches plan s v := by
  constructor
  · exact ⟨fun _ => Or.inl hearly, fun _ => hinfra⟩
  · intro name
    constructor
    · intro h
      exact absurd hcode h.1
    · intro h
      rw [hearly] at h
      cases h.1
  · constructor
    · intro h
      rw [Guards.passed_iff, hinfra] at h
      cases h.2
    · intro h
      rw [hearly] at h
      cases h.1

omit [FloatText F] in
theorem matches_failed {plan : List Line} {s : State} {v : Verdict F} {e : Entry} {l : Line}
    {code : UInt8} (hearly : s.state.early = false) (hfind : firstFailing s.log = some (l, code))
    (hknown : known l.kind = true) (hrecords : Records e (l, code)) (hblames : Blames e v) :
    Matches plan s v := by
  have hkind := kind_of_fails (List.find?_some hfind) hknown
  have hnotClean : firstFailing s.log ≠ none := by
    rw [hfind]
    exact Option.some_ne_none _
  have hfirst : forall l' code', firstFailing s.log = some (l', code') -> l' = l := by
    intro l' code' h
    rw [hfind] at h
    cases h
    rfl
  have hinfra : v.infra = true <-> isFatal l.kind = true := by
    unfold Blames at hblames
    rw [hrecords.2.1] at hblames
    split_ifs at hblames with hfatal
    · exact ⟨fun _ => hfatal, fun _ => hblames.1⟩
    · rw [hblames.1]
      exact ⟨fun h => (by cases h), fun h => absurd h hfatal⟩
  constructor
  · rw [hinfra, isFatal_iff]
    constructor
    · intro h
      exact Or.inr (Or.inl ⟨l, code, hfind, h⟩)
    · intro h
      rcases h with h | ⟨l', code', hl', h⟩ | ⟨h, _⟩
      · rw [hearly] at h
        cases h
      · rw [<- hfirst l' code' hl']
        exact h
      · exact absurd h hnotClean
  · intro name
    unfold Blames at hblames
    rw [hrecords.2.1] at hblames
    split_ifs at hblames with hfatal
    · constructor
      · intro h
        exact absurd hblames.2 h.1
      · intro h
        obtain ⟨_, l', code', hl', _, hother⟩ := h
        rw [hfirst l' code' hl'] at hother
        have hfatal' := isFatal_iff.mp hfatal
        rcases hother with hother | hother
        · rw [hother] at hfatal'
          exact absurd hfatal' (by decide)
        · rw [hother] at hfatal'
          exact absurd hfatal' (by decide)
    · rw [hblames.2.1, hblames.2.2, hrecords.1, Option.some.injEq, Value.str.injEq]
      constructor
      · intro h
        refine ⟨hearly, l, code, hfind, h.2, ?_⟩
        exact hkind.resolve_left hfatal
      · intro h
        obtain ⟨_, l', code', hl', hname, _⟩ := h
        rw [hfirst l' code' hl'] at hname
        exact ⟨by decide, hname⟩
  · rw [Guards.passed_iff]
    constructor
    · intro h
      unfold Blames at hblames
      split_ifs at hblames
      · rw [hblames.1] at h
        cases h.2
      · rw [hblames.2.1] at h
        cases h.1
    · intro h
      exact absurd h.2.2 hnotClean

omit [FloatText F] in
theorem matches_clean {plan : List Line} {s : State} {v : Verdict F}
    (hearly : s.state.early = false) (hfind : firstFailing s.log = none)
    (hinfra : v.infra = true <->
      exists l rest, plan = s.log.map Prod.fst ++ l :: rest ∧ known l.kind = false)
    (hall : v.infra = false <-> s.log.map Prod.fst = plan) (hcode : v.testCode = 0) :
    Matches plan s v := by
  constructor
  · rw [hinfra]
    constructor
    · intro h
      exact Or.inr (Or.inr ⟨hfind, h⟩)
    · intro h
      rcases h with h | ⟨l, code, h, _⟩ | ⟨_, h⟩
      · rw [hearly] at h
        cases h
      · rw [hfind] at h
        cases h
      · exact h
  · intro name
    constructor
    · intro h
      exact absurd hcode h.1
    · intro h
      obtain ⟨_, l, code, h, _⟩ := h
      rw [hfind] at h
      cases h
  · rw [Guards.passed_iff, hall]
    constructor
    · intro h
      exact ⟨hearly, h.2, hfind⟩
    · intro h
      exact ⟨hcode, h.2.1⟩

/-- What the guards make of the file of a supervisor that has stopped. -/
theorem matches_of_stopped (py : Guards.Python F) {plan : List Line} {ctx : Context}
    (hctx : Bare ctx (plan.map Line.name)) {s : State} (h : Inv plan s)
    (hstopped : s.point = .stopped) :
    exists v, evaluate py ctx s.report.value [] = .ok v ∧ Matches plan s v := by
  have hplaced := h.placed
  unfold Placed at hplaced
  rw [hstopped] at hplaced
  cases hearly : s.state.early with
  | true =>
      obtain ⟨v, hv, hinfra, hcode⟩ := evaluate_early py hctx (r := s.report) hearly
      exact ⟨v, hv, matches_early hearly hinfra hcode⟩
  | false =>
      have hdone : s.state = .done ∧ s.codeWait = .ok ∧ Settled plan s.log := by
        rcases hplaced.1 with hcontra | htimeout | hdone
        · rw [hearly] at hcontra
          cases hcontra
        · rw [htimeout] at hearly
          cases hearly
        · exact hdone
      obtain ⟨hstate, hwait, hsettled⟩ := hdone
      have hentries : List.Forall₂ Records s.entries s.log := by
        apply h.entries
        rw [hstate]
        decide
      have hok : s.report.codeWait ≠ .timeout := by
        show s.codeWait ≠ .timeout
        rw [hwait]
        decide
      obtain ⟨hnone, hsome⟩ := find_records hentries
      have hnames : s.report.entries.map Entry.name = (s.log.map Prod.fst).map Line.name :=
        names_of_records hentries
      rcases hsettled with ⟨hall, hclean⟩ | ⟨before, l, code, hlog, hclean, hfails, hknown⟩ |
        ⟨hclean, l, rest, heq, hknown⟩
      · rw [hall] at hnames
        obtain ⟨v, hv, hinfra, hcode⟩ := evaluate_passes py hctx (r := s.report) hearly hok
          (hnone hclean) hnames
        refine ⟨v, hv, matches_clean hearly hclean ?_ ?_ hcode⟩
        · rw [hinfra, hall]
          constructor
          · intro hcontra
            cases hcontra
          · intro hcontra
            obtain ⟨l, rest, heq, _⟩ := hcontra
            have hlen := congrArg List.length heq
            simp at hlen
        · exact ⟨fun _ => hall, fun _ => hinfra⟩
      · have hfind : firstFailing s.log = some (l, code) := by
          unfold firstFailing Clean at *
          rw [hlog, List.find?_append, hclean, Option.none_or, List.find?_cons, hfails]
        obtain ⟨e, he, hrecords⟩ := hsome _ hfind
        obtain ⟨v, hv, hblames⟩ := evaluate_failed py hctx (r := s.report) hearly hok he
        exact ⟨v, hv, matches_failed hearly hfind hknown hrecords hblames⟩
      · have hshort : s.report.entries.map Entry.name ≠ plan.map Line.name := by
          rw [hnames]
          intro hsame
          have hlen := congrArg List.length hsame
          rw [heq] at hlen
          simp at hlen
        obtain ⟨v, hv, hinfra, hcode⟩ := evaluate_short py hctx (r := s.report) hearly hok
          (hnone hclean) hshort
        refine ⟨v, hv, matches_clean hearly hclean ?_ ?_ hcode⟩
        · exact ⟨fun _ => ⟨l, rest, heq, hknown⟩, fun _ => hinfra⟩
        · rw [hinfra]
          constructor
          · intro hcontra
            cases hcontra
          · intro hall
            rw [hall] at hnames
            exact absurd hnames hshort

/-- steps.json is JSON whose steps stand in the order of the plan whenever it is there, and when
the supervisor has stopped the verdict on it says what the run did. -/
theorem verdict_matches (py : Guards.Python F) {plan : List Line} {ctx : Context}
    (hctx : Bare ctx (plan.map Line.name)) (hplan : forall l, l ∈ plan -> Named l) {s : State}
    (h : Reached plan s) :
    (forall r, s.file = some r -> exists (doc : Value F) (names : List String),
      JsonText.loads r.text = .ok doc ∧
        (Guards.stepItems doc >>= fun ran => ran.mapM fun step => step.item "name") =
          .ok (names.map Value.str) ∧ names <+: plan.map Line.name) ∧
    (s.point = .stopped -> exists r v, s.file = some r ∧
      (JsonText.loads r.text >>= fun doc => evaluate py ctx doc []) = .ok v ∧
        Matches plan s v) := by
  have hinv := inv_of_reached hplan h
  constructor
  · intro r hr
    have hgood := hinv.file r hr
    refine ⟨r.value, r.entries.map Entry.name, loads_report hgood.plain, ?_, hgood.ordered⟩
    have hitems : Guards.stepItems (r.value : Value F) = .ok (r.entries.map Entry.value) := by rfl
    rw [hitems, Fallible.ok_bind, mapM_names]
  · intro hstopped
    obtain ⟨v, hv, hmatches⟩ := matches_of_stopped py hctx hinv hstopped
    have hfile : s.file = some s.report := by
      have hplaced := hinv.placed
      unfold Placed at hplaced
      rw [hstopped] at hplaced
      exact hplaced.2
    refine ⟨s.report, v, hfile, ?_, hmatches⟩
    rw [loads_report hinv.good.plain, Fallible.ok_bind, hv]

end Matches

/-!
## Two runs
-/

/-- A report comes before the command that fails, and another command after it. -/
def fourSteps : List Line :=
  [⟨"install", "install", "pixi install"⟩, ⟨"lint", "report", "ruff check"⟩,
    ⟨"test", "command", "ctest"⟩, ⟨"bench", "command", "bench run"⟩]

def threeSeconds : Seconds := ⟨3, by decide⟩

def plainContext (plan : List Line) : Context :=
  ⟨false, plan.map Line.name, false, "", "", none, none⟩

def plainPython : Guards.Python JsonText.Half :=
  ⟨fun _ => "", fun _ => .ok [], fun _ => ""⟩

theorem bare_plainContext (plan : List Line) : Bare (plainContext plan) (plan.map Line.name) :=
  ⟨rfl, rfl, rfl⟩

theorem named_fourSteps : forall l, l ∈ fourSteps -> Named l := by
  unfold Named
  decide

def entering : List Act := [.write, .arrive, .write]

/-- The supervisor over one step, to what follows it. -/
def ranStep (code : UInt8) : List Act :=
  [.readLine, .ended, .record code threeSeconds false, .write, .decide]

def failedReport : Report :=
  ⟨.done, .ok, 2, [⟨"install", "install", 0, threeSeconds, .ok⟩,
    ⟨"lint", "report", 5, threeSeconds, .failed⟩, ⟨"test", "command", 2, threeSeconds, .failed⟩]⟩

def failedState : State :=
  ⟨.stopped, .done, .ok, 2, failedReport.entries, some failedReport,
    (fourSteps.take 3).zip [0, 5, 2]⟩

theorem reached_failed : Reached fourSteps failedState := by
  have hreplay : Transition.replay (step fourSteps) {} (entering ++ ranStep 0 ++ ranStep 5 ++
      ranStep 2 ++ [.leave, .write, .collect]) = some failedState := by decide
  exact Transition.Reached.init.replay (fun _ _ _ => trivial) hreplay

theorem verdict_matches_failed : exists r v, failedState.file = some r ∧
    (JsonText.loads r.text >>= fun doc =>
      evaluate plainPython (plainContext fourSteps) doc []) = .ok v ∧
        Matches fourSteps failedState v :=
  (verdict_matches plainPython (bare_plainContext fourSteps) named_fourSteps reached_failed).2 rfl

def onePlan : List Line := [⟨"build", "build", "make"⟩]

def lateReport : Report := ⟨.timeout, .ok, 3, [⟨"build", "build", 0, threeSeconds, .timeout⟩]⟩

def lateState : State :=
  ⟨.stopped, .timeout, .ok, 3, lateReport.entries, some lateReport,
    [(⟨"build", "build", "make"⟩, 0)]⟩

/-- A step that ends well while the watchdog ends the pipeline: every planned step ran and exited
with 0, and the run is no pass. -/
theorem not_passed_timeout : exists s, Reached onePlan s ∧ s.point = .stopped ∧
    s.log.map Prod.fst = onePlan ∧ firstFailing s.log = none ∧
      exists r v, s.file = some r ∧
        (JsonText.loads r.text >>= fun doc =>
          evaluate plainPython (plainContext onePlan) doc []) = .ok v ∧ v.passed = false := by
  have hreached : Reached onePlan lateState := by
    have hreplay : Transition.replay (step onePlan) {} (entering ++ [.readLine, .ended,
        .record 0 threeSeconds true, .leave, .write, .collect]) = some lateState := by decide
    exact Transition.Reached.init.replay (fun _ _ _ => trivial) hreplay
  have hplain : forall e, e ∈ lateReport.entries -> e.Plain := by
    intro e he
    rw [List.mem_singleton.mp he]
    exact ⟨by decide, by decide⟩
  obtain ⟨v, hv, hinfra, _⟩ :=
    evaluate_early plainPython (bare_plainContext onePlan) (r := lateReport) rfl
  refine ⟨lateState, hreached, rfl, rfl, rfl, lateReport, v, rfl, ?_, ?_⟩
  · rw [loads_report hplain, Fallible.ok_bind, hv]
  · rw [Verdict.passed, hinfra]
    simp

end Supervisor
end Dev
end Ostia

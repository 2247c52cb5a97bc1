import Mathlib.Data.List.DropRight
import Mathlib.Data.List.Flatten
import Mathlib.Data.List.Nodup
import Ostia.Dev.Watchdog
import Ostia.Foundation.Fallible
import Ostia.Foundation.ShellWords

/-!
# The step plan of a run

The plan of a run is a text, one line a step, that reaches the supervisor of the pod in a variable
of its environment.  A container gets the variables as they are; Kubernetes expands the references
in a value to the variables before it.  The supervisor reads the lines back.
-/

namespace Ostia
namespace Dev
namespace StepPlan

open Foundation
open Watchdog (Line known)

/-!
## Steps and their text
-/

structure Step where
  name : String
  kind : String
  argv : List String
deriving DecidableEq

def isInitial (c : Char) : Bool := ('a' ≤ c && c ≤ 'z') || c.isDigit

def isLater (c : Char) : Bool := isInitial c || c == '.' || c == '_' || c == '-'

/-- The names that a step may have; the end of the pattern is also before a last newline. -/
def isName (cs : List Char) : Bool :=
  match cs with
  | [] => false
  | c :: r =>
      isInitial c && (r.all isLater || (r.getLast? == some '\n' && r.dropLast.all isLater))

/-- What is checked when a step is made. -/
def Step.made (s : Step) : Bool := isName s.name.toList && known s.kind

/-- An argument that spans lines or columns, with its step. -/
structure UsageError where
  step : String
  argument : String
deriving DecidableEq

def spansLines (a : String) : Bool := a.toList.contains '\n' || a.toList.contains '\t'

/-- One line of the plan. -/
def lineOf (s : Step) : List Char :=
  s.name.toList ++ '\t' :: (s.kind.toList ++ '\t' :: ShellWords.join (s.argv.map String.toList))

def encodeLines : List Step -> Except UsageError (List (List Char))
  | [] => .ok []
  | s :: rest =>
      match s.argv.find? spansLines with
      | some a => .error ⟨s.name, a⟩
      | none => do
          let lines ← encodeLines rest
          pure (lineOf s :: lines)

def encode (steps : List Step) : Except UsageError String := do
  let lines ← encodeLines steps
  pure (String.ofList (['\n'].intercalate lines))

/-!
## The loop that reads the plan
-/

def isTab (c : Char) : Bool := c == '\t'

/-- The text before the first tab, and what follows the tabs. -/
def field (cs : List Char) : List Char × List Char :=
  (cs.takeWhile fun c => !isTab c, (cs.dropWhile fun c => !isTab c).dropWhile isTab)

/-- A line is read into three variables; tabs at its ends are no part of them. -/
def readLine (cs : List Char) : Line :=
  let (name, r) := field (cs.dropWhile isTab)
  let (kind, r) := field r
  ⟨String.ofList name, String.ofList kind, String.ofList (r.rdropWhile isTab)⟩

def linesOf (text : String) : List Line := (text.toList.splitOn '\n').map readLine

/-- The steps that the loop runs, counted from a number, when it stops after some of them: an empty
line is passed over, a step of an unknown kind ends the loop. -/
def loop (stops : Nat -> Bool) : Nat -> List Line -> List Line
  | _, [] => []
  | k, l :: rest =>
      if l.name = "" then loop stops k rest
      else if !known l.kind then []
      else l :: if stops k then [] else loop stops (k + 1) rest

/-- The planned steps up to the one after which the loop stops. -/
def upTo (stops : Nat -> Bool) : Nat -> List Step -> List Step
  | _, [] => []
  | k, s :: rest => s :: if stops k then [] else upTo stops (k + 1) rest

/-- The arguments that the shell makes of a command, if it makes nothing else of it. -/
def argvOf (cmd : String) : Option (List String) :=
  (ShellWords.words cmd.toList).map fun ws => ws.map String.ofList

/-- The loop runs the planned steps, wherever it stops. -/
def RoundTrips (text : String) (steps : List Step) : Prop :=
  forall stops, (loop stops 0 (linesOf text)).map (fun l => (l.name, l.kind, argvOf l.cmd)) =
    (upTo stops 0 steps).map fun s => (s.name, s.kind, some s.argv)

/-!
## References in the values of Kubernetes
-/

/-- What stands for a reference: the value of a variable that was set before, or itself. -/
def reference (env : List (String × String)) (name : List Char) : List Char :=
  match env.lookup (String.ofList name) with
  | some v => v.toList
  | none => '$' :: '(' :: (name ++ [')'])

/-- Expand a text, or the rest of it when part of a reference was read. -/
def expandFrom (env : List (String × String)) : Option (List Char) -> List Char -> List Char
  | none, [] => []
  | none, '$' :: '$' :: r => '$' :: expandFrom env none r
  | none, '$' :: '(' :: r =>
      if r.contains ')' then expandFrom env (some []) r else '$' :: '(' :: expandFrom env none r
  | none, c :: r => c :: expandFrom env none r
  | some _, [] => []
  | some name, c :: r =>
      if c = ')' then reference env name ++ expandFrom env none r
      else expandFrom env (some (name ++ [c])) r

def expand (env : List (String × String)) (text : String) : String :=
  String.ofList (expandFrom env none text.toList)

/-- What an entry of a container's environment gives. -/
inductive EnvValue where
  | value (v : String)
  | fieldRef (path : String)
deriving DecidableEq

/-- The variables of a container, the last one first. -/
def podEnv (fields : String -> String) : List (String × EnvValue) -> List (String × String) ->
    List (String × String)
  | [], env => env
  | (name, .value v) :: rest, env => podEnv fields rest ((name, expand env v) :: env)
  | (name, .fieldRef path) :: rest, env => podEnv fields rest ((name, fields path) :: env)

/-!
## The environment of a run
-/

/-- A dictionary of texts, in the order of its keys. -/
abbrev Dict := List (String × String)

def setItem (key v : String) : Dict -> Dict
  | [] => [(key, v)]
  | e :: rest => if e.1 = key then (key, v) :: rest else e :: setItem key v rest

def update (d other : Dict) : Dict := other.foldl (fun d e => setItem e.1 e.2 d) d

def setDefault (key v : String) (d : Dict) : Dict :=
  if (d.lookup key).isSome then d else setItem key v d

def remove (key : String) (d : Dict) : Dict := d.filter fun e => e.1 != key

structure Windows where
  codeWait : Int
  scheduleTimeout : Int
  timeout : Int
  collect : Int

structure Run where
  runId : String
  steps : List Step
  env : String
  preset : String
  buildDir : String
  buildJobs : Int
  testJobs : Int
  windows : Windows
  gitSha : String
  isGpu : Bool
  profileEnv : Dict
  envVars : Dict
  /-- The defaults of the capture, when there are any. -/
  captureEnv : Dict

def WORK : String := "/w"

def Run.supervisorEnv (run : Run) : Except UsageError Dict := do
  let plan ← encode run.steps
  let env : Dict :=
    [("OSTIA_WORK", WORK), ("OSTIA_PLAN", plan), ("OSTIA_ENV", run.env),
      ("OSTIA_PRESET", run.preset), ("OSTIA_BUILD_DIR", run.buildDir),
      ("OSTIA_CODE_WAIT", toString run.windows.codeWait),
      ("OSTIA_COLLECT_WINDOW", toString run.windows.collect),
      ("OSTIA_TIMEOUT", toString run.windows.timeout), ("HOME", WORK ++ "/home"),
      ("CMAKE_BUILD_PARALLEL_LEVEL", toString run.buildJobs),
      ("CTEST_PARALLEL_LEVEL", toString run.testJobs), ("CTEST_NO_TESTS_ACTION", "error"),
      ("OSTIA_GIT_SHA", run.gitSha)]
  let env := if run.isGpu then setItem "OSTIA_REQUIRE_GPU" "1" env else env
  pure (update (update env run.profileEnv) run.envVars)

def RENDEZVOUS_PORT : Int := 29400

def INDEX : String := "batch.kubernetes.io/job-completion-index"

def CACHE_ENV : Dict :=
  [("RATTLER_CACHE_DIR", WORK ++ "/cache/rattler"), ("CPM_SOURCE_CACHE", WORK ++ "/cache/cpm"),
    ("CCACHE_DIR", WORK ++ "/cache/ccache")]

def codeWait (windows : Windows) (pods : Int) : Int :=
  if pods > 1 then max windows.codeWait windows.scheduleTimeout else windows.codeWait

def jobName (runId : String) : String := "ostia-" ++ runId

/-- What a job is made with besides the run. -/
structure Job where
  keep : Int
  cache : Bool
  secretKeys : List String
  pods : Int

/-- The variables of the profile that name another one, for the supervisor to expand. -/
def expanded (run : Run) (env : Dict) : Dict :=
  run.profileEnv.filter fun e => e.2.toList.contains '$' && env.lookup e.1 == some e.2

/-- The variables of a job that are texts. -/
def jobEnv (run : Run) (job : Job) (env : Dict) : Dict :=
  let env := setItem "OSTIA_CODE_WAIT" (toString (codeWait run.windows job.pods)) env
  let expand := expanded run env
  let env := expand.foldl (fun d e => remove e.1 d) env
  let env := if expand.isEmpty then env
    else setItem "OSTIA_EXPAND_ENV" ("\n".intercalate (expand.map fun e => e.1 ++ "=" ++ e.2)) env
  let env := setItem "OSTIA_COLLECT_WINDOW" (toString (run.windows.collect + job.keep)) env
  let env := if job.cache then update env CACHE_ENV else env
  let env := run.captureEnv.foldl (fun d e => setDefault e.1 e.2 d) env
  job.secretKeys.foldl (fun d k => remove k d) env

/-- The entries that come after the variables. -/
def jobExtras (run : Run) (job : Job) (env : Dict) : List (String × EnvValue) :=
  let node := if (env.lookup "NODE_NAME").isNone && !job.secretKeys.contains "NODE_NAME" then
      [("NODE_NAME", EnvValue.fieldRef "spec.nodeName")]
    else []
  let peers := if job.pods > 1 then
      let name := jobName run.runId
      [("OSTIA_RANK", EnvValue.fieldRef ("metadata.annotations['" ++ INDEX ++ "']")),
        ("OSTIA_SIZE", EnvValue.value (toString job.pods)),
        ("OSTIA_PORT", EnvValue.value (toString RENDEZVOUS_PORT)),
        ("OSTIA_PEER_HOST", EnvValue.value (name ++ "-0." ++ name))]
    else []
  node ++ peers

def envItems (run : Run) (job : Job) : Except UsageError (List (String × EnvValue)) := do
  let supervisor ← run.supervisorEnv
  let env := jobEnv run job supervisor
  pure (env.map (fun e => (e.1, EnvValue.value e.2)) ++ jobExtras run job env)

/-- The entries before the plan. -/
def earlier (items : List (String × EnvValue)) : List (String × EnvValue) :=
  items.takeWhile fun e => e.1 != "OSTIA_PLAN"

/-!
## Reading what was written
-/

section Read

variable {steps : List Step} {text : String}

/-- A step that the supervisor can tell apart: it has a name, and its kind is known. -/
def Distinct (s : Step) : Prop := s.name ≠ "" ∧ known s.kind = true

/-- A name that fits into its column of one line. -/
def FitsColumn (s : Step) : Prop := '\t' ∉ s.name.toList ∧ '\n' ∉ s.name.toList

theorem not_mem_of_all_isLater {cs : List Char} (h : cs.all isLater = true) :
    '\t' ∉ cs ∧ '\n' ∉ cs := by
  constructor
  · intro hmem
    exact absurd (List.all_eq_true.mp h _ hmem) (by decide)
  · intro hmem
    exact absurd (List.all_eq_true.mp h _ hmem) (by decide)

/-- A name is the text of the pattern, with a newline after it or not. -/
theorem body_of_isName {cs : List Char} (h : isName cs = true) :
    exists body, body.all isLater = true ∧ body ≠ [] ∧ (cs = body ∨ cs = body ++ ['\n']) := by
  cases cs with
  | nil => cases h
  | cons c r =>
      rw [isName, Bool.and_eq_true, Bool.or_eq_true, Bool.and_eq_true] at h
      have hc : isLater c = true := by
        unfold isLater
        rw [h.1]
        rfl
      cases h.2 with
      | inl hall =>
          refine ⟨c :: r, ?_, List.cons_ne_nil c r, Or.inl rfl⟩
          rw [List.all_cons, hc, hall]
          rfl
      | inr hlast =>
          refine ⟨c :: r.dropLast, ?_, List.cons_ne_nil c _, Or.inr ?_⟩
          · rw [List.all_cons, hc, hlast.2]
            rfl
          · have hget : r.getLast? = some '\n' := by simpa using hlast.1
            obtain ⟨ys, rfl⟩ := List.getLast?_eq_some_iff.mp hget
            rw [List.dropLast_concat]
            rfl

theorem distinct_of_made {s : Step} (h : s.made = true) : Distinct s := by
  rw [Step.made, Bool.and_eq_true] at h
  refine ⟨?_, h.2⟩
  intro hname
  rw [hname] at h
  exact absurd h.1 (by decide)

/-- A step that could be made fits into its line, unless its name ends with a newline. -/
theorem fitsColumn_of_made {s : Step} (h : s.made = true) :
    FitsColumn s <-> s.name.toList.getLast? ≠ some '\n' := by
  rw [Step.made, Bool.and_eq_true] at h
  obtain ⟨body, hall, _, hname⟩ := body_of_isName h.1
  obtain ⟨htab, hnewline⟩ := not_mem_of_all_isLater hall
  unfold FitsColumn
  cases hname with
  | inl hname =>
      rw [hname]
      constructor
      · intro _ hlast
        exact hnewline (List.mem_of_getLast? hlast)
      · intro _
        exact ⟨htab, hnewline⟩
  | inr hname =>
      rw [hname]
      constructor
      · intro hfits
        exact absurd (List.mem_append_right body (List.mem_singleton.mpr rfl)) hfits.2
      · intro hlast
        exact absurd List.getLast?_concat hlast

theorem encodeLines_eq_ok {lines : List (List Char)} (h : encodeLines steps = .ok lines) :
    lines = steps.map lineOf ∧
      forall s, s ∈ steps -> forall a, a ∈ s.argv -> spansLines a = false := by
  induction steps generalizing lines with
  | nil =>
      cases h
      exact ⟨rfl, fun s hs => (List.not_mem_nil hs).elim⟩
  | cons s rest ih =>
      rw [encodeLines] at h
      cases hfind : s.argv.find? spansLines with
      | some a =>
          rw [hfind] at h
          cases h
      | none =>
          simp only [hfind, Fallible.bind_eq_ok] at h
          obtain ⟨later, hlater, hlines⟩ := h
          cases hlines
          obtain ⟨hmap, hargs⟩ := ih hlater
          rw [hmap, List.forall_mem_cons]
          refine ⟨rfl, ?_, hargs⟩
          intro a ha
          simpa using List.find?_eq_none.mp hfind a ha

theorem encode_eq_ok (h : encode steps = .ok text) :
    text.toList = ['\n'].intercalate (steps.map lineOf) ∧
      forall s, s ∈ steps -> forall a, a ∈ s.argv -> '\n' ∉ a.toList ∧ '\t' ∉ a.toList := by
  rw [encode, Fallible.bind_eq_ok] at h
  obtain ⟨lines, hlines, htext⟩ := h
  obtain ⟨hmap, hargs⟩ := encodeLines_eq_ok hlines
  cases htext
  rw [String.toList_ofList, hmap]
  refine ⟨rfl, ?_⟩
  intro s hs a ha
  simpa [spansLines] using hargs s hs a ha

/-- The characters of a step that are no separators and no quotes. -/
def flat (s : Step) : List Char :=
  s.name.toList ++ (s.kind.toList ++ (s.argv.map String.toList).flatten)

theorem count_lineOf {c : Char} (htab : c ≠ '\t') (hsingle : c ≠ '\'') (hdouble : c ≠ '"')
    (hspace : c ≠ ' ') (s : Step) : (lineOf s).count c = (flat s).count c := by
  unfold lineOf flat
  rw [List.count_append, List.count_cons_of_ne htab.symm, List.count_append,
    List.count_cons_of_ne htab.symm, ShellWords.count_join hsingle hdouble hspace,
    List.count_append, List.count_append]

theorem not_mem_known {kind : String} (h : known kind = true) {c : Char}
    (hc : c = '\t' ∨ c = '\n') : c ∉ kind.toList := by
  have hall : forall k, k ∈ ["preflight", "install", "build", "command", "report"] ->
      '\t' ∉ k.toList ∧ '\n' ∉ k.toList := by decide
  have hkind := hall kind (List.contains_iff_mem.mp h)
  cases hc with
  | inl hc =>
      rw [hc]
      exact hkind.1
  | inr hc =>
      rw [hc]
      exact hkind.2

theorem not_mem_flatten {argv : List String} {c : Char}
    (h : forall a, a ∈ argv -> c ∉ a.toList) : c ∉ (argv.map String.toList).flatten := by
  intro hc
  rw [List.mem_flatten] at hc
  obtain ⟨w, hw, hc⟩ := hc
  obtain ⟨a, ha, rfl⟩ := List.mem_map.mp hw
  exact h a ha hc

theorem newline_not_mem_lineOf {s : Step} (hstep : Distinct s) (hfits : FitsColumn s)
    (hargs : forall a, a ∈ s.argv -> '\n' ∉ a.toList ∧ '\t' ∉ a.toList) :
    '\n' ∉ lineOf s := by
  rw [<- List.count_eq_zero, count_lineOf (by decide) (by decide) (by decide) (by decide),
    List.count_eq_zero]
  unfold flat
  rw [List.mem_append, List.mem_append, not_or, not_or]
  refine ⟨hfits.2, not_mem_known hstep.2 (Or.inr rfl), ?_⟩
  exact not_mem_flatten fun a ha => (hargs a ha).1

theorem dropWhile_isTab {cs : List Char} (h : '\t' ∉ cs) : cs.dropWhile isTab = cs := by
  cases cs with
  | nil => rfl
  | cons c r =>
      rw [List.dropWhile_cons_of_neg]
      intro hc
      exact h (List.mem_cons.mpr (Or.inl (beq_iff_eq.mp hc).symm))

theorem field_append {w rest : List Char} (h : '\t' ∉ w) :
    field (w ++ '\t' :: rest) = (w, rest.dropWhile isTab) := by
  have hw : forall c, c ∈ w -> (!isTab c) = true := by
    intro c hc
    have hne : c ≠ '\t' := fun heq => h (heq ▸ hc)
    simpa [isTab] using hne
  unfold field
  rw [List.takeWhile_append_of_pos hw, List.dropWhile_append_of_pos hw,
    List.takeWhile_cons_of_neg (by decide), List.dropWhile_cons_of_neg (by decide),
    List.append_nil, List.dropWhile_cons_of_pos (by decide)]

theorem dropWhile_isTab_append {w : List Char} (hnil : w ≠ []) (h : '\t' ∉ w)
    (rest : List Char) : (w ++ rest).dropWhile isTab = w ++ rest := by
  cases w with
  | nil => exact absurd rfl hnil
  | cons c w =>
      rw [List.cons_append, List.dropWhile_cons_of_neg]
      intro hc
      exact h (List.mem_cons.mpr (Or.inl (beq_iff_eq.mp hc).symm))

theorem toList_ne_nil {s : String} (h : s ≠ "") : s.toList ≠ [] := by
  intro hnil
  apply h
  rw [<- String.ofList_toList (s := s), hnil]

theorem known_ne {kind : String} (h : known kind = true) : kind ≠ "" := by
  intro hkind
  rw [hkind] at h
  exact absurd h (by decide)

theorem readLine_lineOf {s : Step} (hstep : Distinct s) (hfits : FitsColumn s)
    (hargs : forall a, a ∈ s.argv -> '\n' ∉ a.toList ∧ '\t' ∉ a.toList) :
    readLine (lineOf s) =
      ⟨s.name, s.kind, String.ofList (ShellWords.join (s.argv.map String.toList))⟩ := by
  have hkind := not_mem_known hstep.2 (Or.inl rfl)
  have hcmd : '\t' ∉ ShellWords.join (s.argv.map String.toList) := by
    rw [<- List.count_eq_zero, ShellWords.count_join (by decide) (by decide) (by decide),
      List.count_eq_zero]
    exact not_mem_flatten fun a ha => (hargs a ha).2
  have hend : (ShellWords.join (s.argv.map String.toList)).rdropWhile isTab =
      ShellWords.join (s.argv.map String.toList) := by
    rw [List.rdropWhile, dropWhile_isTab (by simpa using hcmd), List.reverse_reverse]
  unfold readLine lineOf
  simp only [dropWhile_isTab_append (toList_ne_nil hstep.1) hfits.1, field_append hfits.1,
    dropWhile_isTab_append (toList_ne_nil (known_ne hstep.2)) hkind, field_append hkind,
    dropWhile_isTab hcmd, hend, String.ofList_toList]

theorem argvOf_join (argv : List String) :
    argvOf (String.ofList (ShellWords.join (argv.map String.toList))) = some argv := by
  unfold argvOf
  rw [String.toList_ofList, ShellWords.words_join, Option.map_some, List.map_map]
  have hid : String.ofList ∘ String.toList = id := by
    funext s
    exact String.ofList_toList
  rw [hid, List.map_id]

/-- A plan whose names fit into their columns is run as it was planned. -/
theorem roundTrips_encode (hsteps : forall s, s ∈ steps -> Distinct s)
    (hfits : forall s, s ∈ steps -> FitsColumn s) (h : encode steps = .ok text) :
    RoundTrips text steps := by
  obtain ⟨htext, hargs⟩ := encode_eq_ok h
  intro stops
  have hrun : forall (rest : List Step) k, (forall s, s ∈ rest -> s ∈ steps) ->
      (loop stops k (rest.map fun s => readLine (lineOf s))).map
          (fun l => (l.name, l.kind, argvOf l.cmd)) =
        (upTo stops k rest).map fun s => (s.name, s.kind, some s.argv) := by
    intro rest
    induction rest with
    | nil =>
        intro k hrest
        rfl
    | cons s rest ih =>
        intro k hrest
        have hs := hrest s List.mem_cons_self
        have hline := readLine_lineOf (hsteps s hs) (hfits s hs) (hargs s hs)
        rw [List.map_cons, hline, loop, if_neg (hsteps s hs).1,
          if_neg (by simp [(hsteps s hs).2]), upTo, List.map_cons, List.map_cons, argvOf_join]
        split_ifs
        · rfl
        · rw [ih (k + 1) fun t ht => hrest t (List.mem_cons_of_mem s ht)]
  unfold linesOf
  rw [htext]
  cases hnil : steps with
  | nil => rfl
  | cons s rest =>
      rw [List.splitOn_intercalate]
      · rw [List.map_map, <- hnil]
        exact hrun steps 0 fun t ht => ht
      · intro l hl
        rw [<- hnil] at hl
        obtain ⟨t, ht, rfl⟩ := List.mem_map.mp hl
        exact newline_not_mem_lineOf (hsteps t ht) (hfits t ht) (hargs t ht)
      · simp

end Read

/-!
## What is read of any text
-/

section Any

theorem upTo_never (steps : List Step) (k : Nat) : upTo (fun _ => false) k steps = steps := by
  induction steps generalizing k with
  | nil => rfl
  | cons s rest ih =>
      rw [upTo, ih]
      rfl

theorem loop_sublist (stops : Nat -> Bool) (k : Nat) (lines : List Line) :
    (loop stops k lines).Sublist lines := by
  induction lines generalizing k with
  | nil => exact List.Sublist.slnil
  | cons l rest ih =>
      rw [loop]
      split_ifs
      · exact (ih k).cons l
      · exact List.nil_sublist _
      · exact (List.nil_sublist rest).cons_cons l
      · exact (ih (k + 1)).cons_cons l

/-- No piece of a text that is split holds the separator. -/
theorem not_mem_splitOn {a : Char} {cs : List Char} :
    forall piece, piece ∈ cs.splitOn a -> a ∉ piece := by
  induction cs with
  | nil =>
      intro piece hpiece
      rw [List.splitOn_nil, List.mem_singleton] at hpiece
      rw [hpiece]
      exact List.not_mem_nil
  | cons c cs ih =>
      rw [List.splitOn_cons_eq_if_modifyHead]
      split_ifs with hc
      · rw [List.forall_mem_cons]
        exact ⟨List.not_mem_nil, ih⟩
      · cases hsplit : cs.splitOn a with
        | nil => exact absurd hsplit (List.splitOn_ne_nil a cs)
        | cons p ps =>
            rw [hsplit, List.forall_mem_cons] at ih
            rw [List.modifyHead_cons, List.forall_mem_cons]
            refine ⟨?_, ih.2⟩
            rw [List.mem_cons, not_or]
            exact ⟨fun heq => hc (by simp [heq]), ih.1⟩

theorem field_sublist (cs : List Char) : ((field cs).1 ++ (field cs).2).Sublist cs := by
  have hdrop : (cs.dropWhile fun c => !isTab c).Sublist (cs.dropWhile fun c => !isTab c) :=
    List.Sublist.refl _
  have hfield := List.Sublist.append (List.Sublist.refl (cs.takeWhile fun c => !isTab c))
    ((List.dropWhile_sublist isTab).trans hdrop)
  rw [List.takeWhile_append_dropWhile] at hfield
  exact hfield

theorem rdropWhile_sublist (cs : List Char) : (cs.rdropWhile isTab).Sublist cs :=
  (List.rdropWhile_prefix isTab cs).sublist

/-- A line is read in order, and nothing is added. -/
theorem readLine_sublist (cs : List Char) :
    ((readLine cs).name.toList ++ ((readLine cs).kind.toList ++ (readLine cs).cmd.toList)).Sublist
      cs := by
  unfold readLine
  simp only [String.toList_ofList]
  have hfirst := (field_sublist (cs.dropWhile isTab)).trans (List.dropWhile_sublist isTab)
  have hsecond := field_sublist (field (cs.dropWhile isTab)).2
  have hlast := rdropWhile_sublist (field (field (cs.dropWhile isTab)).2).2
  have hrest := ((List.Sublist.refl _).append hlast).trans hsecond
  exact ((List.Sublist.refl _).append hrest).trans hfirst

theorem tab_not_mem_name (cs : List Char) : '\t' ∉ (readLine cs).name.toList := by
  unfold readLine
  simp only [String.toList_ofList, field]
  intro h
  have hpred := List.mem_takeWhile_imp h
  exact absurd hpred (by decide)

theorem flatten_sublist_intercalate (sep : List Char) (parts : List (List Char)) :
    parts.flatten.Sublist (sep.intercalate parts) := by
  induction parts with
  | nil => exact List.nil_sublist _
  | cons w rest ih =>
      cases rest with
      | nil =>
          rw [List.intercalate_singleton, List.flatten_singleton]
      | cons v rest =>
          rw [List.intercalate_cons_cons, List.flatten_cons, List.append_assoc]
          exact (List.Sublist.refl w).append (ih.trans (List.sublist_append_right sep _))

/-- The characters of a line, and of what is made of it. -/
def flatLine (l : Line) : List Char := l.name.toList ++ (l.kind.toList ++ l.cmd.toList)

theorem flatMap_linesOf_sublist (text : String) :
    ((linesOf text).flatMap flatLine).Sublist text.toList := by
  have hpieces : forall pieces : List (List Char),
      ((pieces.map readLine).flatMap flatLine).Sublist pieces.flatten := by
    intro pieces
    induction pieces with
    | nil => exact List.Sublist.slnil
    | cons cs rest ih =>
        rw [List.map_cons, List.flatMap_cons, List.flatten_cons]
        exact (readLine_sublist cs).append ih
  have hflatten := flatten_sublist_intercalate ['\n'] (text.toList.splitOn '\n')
  rw [List.intercalate_splitOn] at hflatten
  exact (hpieces _).trans hflatten

theorem argvOf_sublist {cmd : String} {argv : List String} (h : argvOf cmd = some argv) :
    (argv.map String.toList).flatten.Sublist cmd.toList := by
  obtain ⟨ws, hws, rfl⟩ := Option.map_eq_some_iff.mp h
  have hid : String.toList ∘ String.ofList = id := by
    funext s
    exact String.toList_ofList
  rw [List.map_map, hid, List.map_id]
  exact ShellWords.words_sublist hws

variable {steps : List Step} {text : String}

/-- What a plan is run as stands in its text. -/
theorem flat_sublist (h : RoundTrips text steps) : (steps.flatMap flat).Sublist text.toList := by
  have hrun := h fun _ => false
  rw [upTo_never] at hrun
  have hsame : forall (lines : List Line) (rest : List Step),
      (lines.map fun l => (l.name, l.kind, argvOf l.cmd)) =
        (rest.map fun s => (s.name, s.kind, some s.argv)) ->
      (rest.flatMap flat).Sublist (lines.flatMap flatLine) := by
    intro lines
    induction lines with
    | nil =>
        intro rest heq
        cases rest with
        | nil => exact List.Sublist.slnil
        | cons s rest => cases heq
    | cons l lines ih =>
        intro rest heq
        cases rest with
        | nil => cases heq
        | cons s rest =>
            rw [List.map_cons, List.map_cons, List.cons.injEq, Prod.mk.injEq, Prod.mk.injEq] at heq
            obtain ⟨⟨hname, hkind, hargv⟩, hrest⟩ := heq
            rw [List.flatMap_cons, List.flatMap_cons, flat, flatLine, <- hname, <- hkind]
            have hline := (List.Sublist.refl l.kind.toList).append (argvOf_sublist hargv)
            exact ((List.Sublist.refl l.name.toList).append hline).append (ih rest hrest)
  exact ((hsame _ _ hrun).trans ((loop_sublist _ 0 _).flatMap flatLine)).trans
    (flatMap_linesOf_sublist text)

/-- A plan that is run as it was planned has names that fit into their columns. -/
theorem fitsColumn_of_roundTrips (h : RoundTrips text steps) :
    forall s, s ∈ steps -> FitsColumn s := by
  intro s hs
  have hrun := h fun _ => false
  rw [upTo_never] at hrun
  have hmem : (s.name, s.kind, some s.argv) ∈
      steps.map fun s => (s.name, s.kind, some s.argv) := List.mem_map_of_mem hs
  rw [<- hrun, List.mem_map] at hmem
  obtain ⟨l, hl, heq⟩ := hmem
  have hline := (loop_sublist _ 0 _).mem hl
  obtain ⟨cs, hcs, rfl⟩ := List.mem_map.mp hline
  rw [Prod.mk.injEq] at heq
  constructor
  · rw [<- heq.1]
    exact tab_not_mem_name cs
  · rw [<- heq.1]
    intro hnewline
    apply not_mem_splitOn cs hcs
    exact (readLine_sublist cs).mem (List.mem_append_left _ hnewline)

theorem count_encode {c : Char} (hnewline : c ≠ '\n') (htab : c ≠ '\t') (hsingle : c ≠ '\'')
    (hdouble : c ≠ '"') (hspace : c ≠ ' ') (h : encode steps = .ok text) :
    text.toList.count c = (steps.flatMap flat).count c := by
  rw [(encode_eq_ok h).1]
  have hlines : forall rest : List Step,
      (['\n'].intercalate (rest.map lineOf)).count c = (rest.flatMap flat).count c := by
    intro rest
    induction rest with
    | nil => rfl
    | cons s rest ih =>
        cases rest with
        | nil =>
            rw [List.map_singleton, List.intercalate_singleton,
              count_lineOf htab hsingle hdouble hspace, List.flatMap_singleton]
        | cons t rest =>
            rw [List.map_cons, List.map_cons, List.intercalate_cons_cons, <- List.map_cons,
              List.count_append, List.count_append, ih, count_lineOf htab hsingle hdouble hspace,
              List.count_cons_of_ne hnewline.symm, List.count_nil, Nat.add_zero]
            exact List.count_append.symm
  exact hlines steps

end Any

/-!
## What an expansion changes
-/

section Expand

variable {env : List (String × String)}

theorem count_reference (henv : forall e, e ∈ env -> '$' ∉ e.2.toList) (name : List Char) :
    reference env name = '$' :: '(' :: (name ++ [')']) ∨ '$' ∉ reference env name := by
  unfold reference
  cases hlookup : env.lookup (String.ofList name) with
  | none => exact Or.inl rfl
  | some v =>
      have hmem : exists k, (k, v) ∈ env := by
        rw [List.lookup_eq_some_iff] at hlookup
        obtain ⟨l, r, henv', _⟩ := hlookup
        exact ⟨_, henv' ▸ List.mem_append_right _ List.mem_cons_self⟩
      obtain ⟨k, hmem⟩ := hmem
      exact Or.inr (henv (k, v) hmem)

/-- The text of which a part was read. -/
def whole : Option (List Char) -> List Char -> List Char
  | none, cs => cs
  | some name, cs => '$' :: '(' :: (name ++ cs)

/-- Either nothing was changed, or a dollar sign was taken. -/
def Shrinks (new old : List Char) : Prop := new = old ∨ new.count '$' < old.count '$'

theorem Shrinks.count_le {new old : List Char} (h : Shrinks new old) :
    new.count '$' ≤ old.count '$' := by
  cases h with
  | inl heq => rw [heq]
  | inr hlt => exact Nat.le_of_lt hlt

theorem Shrinks.append {new old : List Char} (h : Shrinks new old) (w : List Char) :
    Shrinks (w ++ new) (w ++ old) := by
  cases h with
  | inl heq => exact Or.inl (by rw [heq])
  | inr hlt =>
      apply Or.inr
      rw [List.count_append, List.count_append]
      exact Nat.add_lt_add_left hlt _

/-- An expansion that changes a text takes a dollar sign from it. -/
theorem expandFrom_shrinks (henv : forall e, e ∈ env -> '$' ∉ e.2.toList)
    (part : Option (List Char)) (cs : List Char) (hpart : part ≠ none -> ')' ∈ cs) :
    Shrinks (expandFrom env part cs) (whole part cs) := by
  have hnone : forall r : List Char, (none : Option (List Char)) ≠ none -> ')' ∈ r :=
    fun r h => absurd rfl h
  fun_induction expandFrom env part cs with
  | case1 => exact Or.inl rfl
  | case2 r ih =>
      -- Two dollar signs become one.
      apply Or.inr
      have hle := (ih (hnone r)).count_le
      rw [whole] at hle
      rw [whole, List.count_cons_self, List.count_cons_self, List.count_cons_self]
      exact Nat.lt_succ_of_le (Nat.succ_le_succ hle)
  | case3 r hclose ih => exact ih fun _ => List.contains_iff_mem.mp hclose
  | case4 r hclose ih => exact (ih (hnone r)).append ['$', '(']
  | case5 c r _ _ ih => exact (ih (hnone r)).append [c]
  | case6 name => exact absurd (hpart (by simp)) List.not_mem_nil
  | case7 name r ih =>
      have hr := ih (hnone r)
      rw [whole] at hr
      have hwhole : whole (some name) (')' :: r) = '$' :: '(' :: (name ++ [')']) ++ r := by
        simp [whole]
      rw [hwhole]
      cases count_reference henv name with
      | inl hsame =>
          rw [hsame]
          exact hr.append _
      | inr hnone =>
          apply Or.inr
          rw [List.count_append, List.count_eq_zero.mpr hnone, List.count_append, Nat.zero_add]
          have hpos : 0 < ('$' :: '(' :: (name ++ [')'])).count '$' :=
            List.count_pos_iff.mpr List.mem_cons_self
          exact Nat.lt_of_le_of_lt hr.count_le (Nat.lt_add_of_pos_left hpos)
  | case8 name c r hc ih =>
      have hmem : ')' ∈ r := by
        cases List.mem_cons.mp (hpart (by simp)) with
        | inl heq => exact absurd heq.symm hc
        | inr hmem => exact hmem
      have hr := ih fun _ => hmem
      have hwhole : whole (some (name ++ [c])) r = whole (some name) (c :: r) := by simp [whole]
      rw [hwhole] at hr
      exact hr

theorem expand_shrinks (henv : forall e, e ∈ env -> '$' ∉ e.2.toList) (text : String) :
    expand env text = text ∨ (expand env text).toList.count '$' < text.toList.count '$' := by
  unfold expand
  cases expandFrom_shrinks henv none text.toList (fun h => absurd rfl h) with
  | inl heq =>
      rw [heq]
      exact Or.inl String.ofList_toList
  | inr hlt =>
      rw [String.toList_ofList]
      exact Or.inr hlt

/-- A text without `$$` and without references to the variables that are set. -/
structure Plain (env : List (String × String)) (cs : List Char) : Prop where
  dollars : ¬ ['$', '$'] <:+: cs
  references : forall e, e ∈ env -> ¬ '$' :: '(' :: (e.1.toList ++ [')']) <:+: cs

theorem Plain.suffix {cs r : List Char} (h : Plain env cs) (hr : r <:+ cs) : Plain env r :=
  ⟨fun hin => h.dollars (hin.trans hr.isInfix),
    fun e he hin => h.references e he (hin.trans hr.isInfix)⟩

theorem reference_of_plain {name r : List Char} (h : Plain env (whole (some name) (')' :: r))) :
    reference env name = '$' :: '(' :: (name ++ [')']) := by
  unfold reference
  cases hlookup : env.lookup (String.ofList name) with
  | none => rfl
  | some v =>
      obtain ⟨l, r', henv, _⟩ := List.lookup_eq_some_iff.mp hlookup
      have hmem : (String.ofList name, v) ∈ env := by
        rw [henv]
        exact List.mem_append_right _ List.mem_cons_self
      have href := h.references _ hmem
      rw [String.toList_ofList] at href
      refine absurd ?_ href
      exact ⟨[], r, by simp [whole]⟩

theorem expandFrom_of_plain (part : Option (List Char)) (cs : List Char)
    (hpart : part ≠ none -> ')' ∈ cs) (h : Plain env (whole part cs)) :
    expandFrom env part cs = whole part cs := by
  have hnone : forall r : List Char, (none : Option (List Char)) ≠ none -> ')' ∈ r :=
    fun r h => absurd rfl h
  fun_induction expandFrom env part cs with
  | case1 => rfl
  | case2 r ih => exact absurd ⟨[], r, rfl⟩ h.dollars
  | case3 r hclose ih => exact ih (fun _ => List.contains_iff_mem.mp hclose) h
  | case4 r hclose ih =>
      rw [ih (hnone r) (h.suffix (List.suffix_append ['$', '('] r))]
      rfl
  | case5 c r _ _ ih =>
      rw [ih (hnone r) (h.suffix (List.suffix_cons c r))]
      rfl
  | case6 name => exact absurd (hpart (by simp)) List.not_mem_nil
  | case7 name r ih =>
      have hwhole : whole (some name) (')' :: r) = '$' :: '(' :: (name ++ [')']) ++ r := by
        simp [whole]
      have hr : Plain env (whole none r) := by
        apply h.suffix
        rw [hwhole]
        exact List.suffix_append _ r
      rw [reference_of_plain h, ih (hnone r) hr, hwhole]
      rfl
  | case8 name c r hc ih =>
      have hmem : ')' ∈ r := by
        cases List.mem_cons.mp (hpart (by simp)) with
        | inl heq => exact absurd heq.symm hc
        | inr hmem => exact hmem
      have hwhole : whole (some (name ++ [c])) r = whole (some name) (c :: r) := by simp [whole]
      rw [hwhole] at ih
      exact ih (fun _ => hmem) h

theorem expand_of_plain {text : String} (h : Plain env text.toList) : expand env text = text := by
  unfold expand
  rw [expandFrom_of_plain none text.toList (fun h => absurd rfl h) h]
  exact String.ofList_toList

end Expand

/-!
## The plan in an environment
-/

section Environment

def keys {V : Type} (d : List (String × V)) : List String := d.map Prod.fst

theorem mem_keys_setItem {k key v : String} {d : Dict} :
    k ∈ keys (setItem key v d) <-> k = key ∨ k ∈ keys d := by
  induction d with
  | nil => simp [setItem, keys]
  | cons e rest ih =>
      rw [setItem]
      split_ifs with he
      · simp [keys, he]
      · simp only [keys, List.map_cons, List.mem_cons] at ih ⊢
        rw [ih]
        exact or_left_comm

theorem nodup_setItem {key v : String} {d : Dict} (h : (keys d).Nodup) :
    (keys (setItem key v d)).Nodup := by
  induction d with
  | nil => exact List.nodup_singleton key
  | cons e rest ih =>
      simp only [keys, List.map_cons, List.nodup_cons] at h
      rw [setItem]
      split_ifs with he
      · rw [he] at h
        exact List.nodup_cons.mpr h
      · apply List.nodup_cons.mpr
        refine ⟨?_, ih h.2⟩
        rw [show List.map Prod.fst (setItem key v rest) = keys (setItem key v rest) from rfl,
          mem_keys_setItem, not_or]
        exact ⟨he, h.1⟩

theorem nodup_remove {key : String} {d : Dict} (h : (keys d).Nodup) :
    (keys (remove key d)).Nodup := h.sublist (List.filter_sublist.map Prod.fst)

theorem nodup_setDefault {key v : String} {d : Dict} (h : (keys d).Nodup) :
    (keys (setDefault key v d)).Nodup := by
  unfold setDefault
  split_ifs
  · exact h
  · exact nodup_setItem h

theorem nodup_foldl {A : Type} {f : Dict -> A -> Dict}
    (hf : forall d a, (keys d).Nodup -> (keys (f d a)).Nodup) (xs : List A) {d : Dict}
    (h : (keys d).Nodup) : (keys (xs.foldl f d)).Nodup := by
  induction xs generalizing d with
  | nil => exact h
  | cons a rest ih => exact ih (hf d a h)

theorem nodup_update {other d : Dict} (h : (keys d).Nodup) : (keys (update d other)).Nodup :=
  nodup_foldl (fun _ _ hd => nodup_setItem hd) other h

theorem nodup_supervisorEnv {run : Run} {env : Dict} (h : run.supervisorEnv = .ok env) :
    (keys env).Nodup := by
  rw [Run.supervisorEnv, Fallible.bind_eq_ok] at h
  obtain ⟨plan, _, henv⟩ := h
  cases henv
  apply nodup_update
  apply nodup_update
  split_ifs
  · apply nodup_setItem
    simp [keys]
  · simp [keys]

theorem nodup_jobEnv {run : Run} {job : Job} {env : Dict} (h : (keys env).Nodup) :
    (keys (jobEnv run job env)).Nodup := by
  unfold jobEnv
  refine nodup_foldl (fun _ _ hd => nodup_remove hd) _ ?_
  refine nodup_foldl (fun _ _ hd => nodup_setDefault hd) _ ?_
  have hexpand : forall (xs : Dict) {d : Dict}, (keys d).Nodup ->
      (keys (xs.foldl (fun d e => remove e.1 d) d)).Nodup :=
    fun xs _ hd => nodup_foldl (fun _ _ hd => nodup_remove hd) xs hd
  split_ifs
  · exact nodup_update (nodup_setItem (hexpand _ (nodup_setItem h)))
  · exact nodup_update (nodup_setItem (nodup_setItem (hexpand _ (nodup_setItem h))))
  · exact nodup_setItem (hexpand _ (nodup_setItem h))
  · exact nodup_setItem (nodup_setItem (hexpand _ (nodup_setItem h)))

theorem plan_not_mem_jobExtras (run : Run) (job : Job) (env : Dict) :
    "OSTIA_PLAN" ∉ keys (jobExtras run job env) := by
  unfold jobExtras keys
  split_ifs
  · simp
  · simp
  · simp
  · simp

/-- The entry of the plan stands once. -/
theorem split_envItems {run : Run} {job : Job} {items : List (String × EnvValue)}
    (h : envItems run job = .ok items) {v : EnvValue} (hplan : ("OSTIA_PLAN", v) ∈ items) :
    exists rest, items = earlier items ++ ("OSTIA_PLAN", v) :: rest ∧
      "OSTIA_PLAN" ∉ keys rest := by
  rw [envItems, Fallible.bind_eq_ok] at h
  obtain ⟨env, henv, hitems⟩ := h
  cases hitems
  have hnodup : (keys (jobEnv run job env)).Nodup := nodup_jobEnv (nodup_supervisorEnv henv)
  have hextras := plan_not_mem_jobExtras run job (jobEnv run job env)
  cases List.mem_append.mp hplan with
  | inr hmem => exact absurd (List.mem_map_of_mem hmem) hextras
  | inl hmem =>
      obtain ⟨before, after, hsplit⟩ := List.append_of_mem hmem
      have hkeys : keys (jobEnv run job env) = keys before ++ "OSTIA_PLAN" :: keys after := by
        have hmap := congrArg (List.map Prod.fst) hsplit
        rw [List.map_map, List.map_append, List.map_cons] at hmap
        exact hmap
      rw [hkeys, List.nodup_append, List.nodup_cons] at hnodup
      have hbefore : "OSTIA_PLAN" ∉ keys before := fun hin =>
        hnodup.2.2 _ hin _ List.mem_cons_self rfl
      rw [hsplit]
      refine ⟨after ++ jobExtras run job (jobEnv run job env), ?_, ?_⟩
      · have hall : forall e, e ∈ before -> (e.1 != "OSTIA_PLAN") = true := by
          intro e he
          rw [bne_iff_ne]
          intro heq
          exact hbefore (heq ▸ List.mem_map_of_mem he)
        unfold earlier
        rw [List.append_assoc, List.takeWhile_append_of_pos hall, List.cons_append,
          List.takeWhile_cons_of_neg (by simp), List.append_nil]
      · unfold keys
        rw [List.map_append, List.mem_append, not_or]
        exact ⟨hnodup.2.1.1, hextras⟩

theorem podEnv_append (fields : String -> String) (xs ys : List (String × EnvValue))
    (env : List (String × String)) :
    podEnv fields (xs ++ ys) env = podEnv fields ys (podEnv fields xs env) := by
  induction xs generalizing env with
  | nil => rfl
  | cons e rest ih =>
      obtain ⟨name, v⟩ := e
      cases v with
      | value v =>
          rw [List.cons_append, podEnv, podEnv]
          exact ih _
      | fieldRef path =>
          rw [List.cons_append, podEnv, podEnv]
          exact ih _

theorem lookup_podEnv (fields : String -> String) {name : String}
    (xs : List (String × EnvValue)) (h : name ∉ keys xs) (env : List (String × String)) :
    (podEnv fields xs env).lookup name = env.lookup name := by
  induction xs generalizing env with
  | nil => rfl
  | cons e rest ih =>
      obtain ⟨other, v⟩ := e
      unfold keys at h
      rw [List.map_cons, List.mem_cons, not_or] at h
      have hne : (name == other) = false := beq_false_of_ne h.1
      cases v with
      | value v =>
          rw [podEnv, ih h.2, List.lookup_cons, hne]
      | fieldRef path =>
          rw [podEnv, ih h.2, List.lookup_cons, hne]

theorem lookup_plan {run : Run} {job : Job} {items : List (String × EnvValue)}
    (h : envItems run job = .ok items) {text : String}
    (hplan : ("OSTIA_PLAN", .value text) ∈ items) (fields : String -> String) :
    (podEnv fields items []).lookup "OSTIA_PLAN" =
      some (expand (podEnv fields (earlier items) []) text) := by
  obtain ⟨rest, hitems, hrest⟩ := split_envItems h hplan
  rw [hitems, podEnv_append, podEnv, lookup_podEnv fields rest hrest, List.lookup_cons,
    beq_self_eq_true, <- hitems]

end Environment

/-- The plan is run as it was planned by the supervisor of a container, which has its text, and by
the supervisor of a pod. -/
def RunsAsPlanned (fields : String -> String) (items : List (String × EnvValue)) (text : String)
    (steps : List Step) : Prop :=
  RoundTrips text steps ∧
    exists plan, (podEnv fields items []).lookup "OSTIA_PLAN" = some plan ∧ RoundTrips plan steps

section Planned

variable {run : Run} {job : Job} {items : List (String × EnvValue)} {text : String}
  {fields : String -> String}

theorem runsAsPlanned_of_unchanged (hitems : envItems run job = .ok items)
    (hsteps : forall s, s ∈ run.steps -> Distinct s) (hencode : encode run.steps = .ok text)
    (hplan : ("OSTIA_PLAN", .value text) ∈ items)
    (hfits : forall s, s ∈ run.steps -> FitsColumn s)
    (hexpand : expand (podEnv fields (earlier items) []) text = text) :
    RunsAsPlanned fields items text run.steps := by
  have hround := roundTrips_encode hsteps hfits hencode
  have hlookup := lookup_plan hitems hplan fields
  rw [hexpand] at hlookup
  exact ⟨hround, text, hlookup, hround⟩

/-- A plan in which nothing looks like a reference is run as it was planned. -/
theorem runsAsPlanned_of_plain (hitems : envItems run job = .ok items)
    (hsteps : forall s, s ∈ run.steps -> Distinct s) (hencode : encode run.steps = .ok text)
    (hplan : ("OSTIA_PLAN", .value text) ∈ items)
    (hfits : forall s, s ∈ run.steps -> FitsColumn s)
    (hplain : Plain (podEnv fields (earlier items) []) text.toList) :
    RunsAsPlanned fields items text run.steps :=
  runsAsPlanned_of_unchanged hitems hsteps hencode hplan hfits (expand_of_plain hplain)

theorem unchanged_of_runsAsPlanned (hitems : envItems run job = .ok items)
    (hencode : encode run.steps = .ok text) (hplan : ("OSTIA_PLAN", .value text) ∈ items)
    (henv : forall e, e ∈ podEnv fields (earlier items) [] -> '$' ∉ e.2.toList)
    (h : RunsAsPlanned fields items text run.steps) :
    expand (podEnv fields (earlier items) []) text = text := by
  obtain ⟨_, plan, hpod, hround⟩ := h
  rw [lookup_plan hitems hplan fields, Option.some.injEq] at hpod
  cases expand_shrinks henv text with
  | inl heq => exact heq
  | inr hlt =>
      rw [<- hpod] at hround
      have hle := (flat_sublist hround).count_le '$'
      rw [<- count_encode (by decide) (by decide) (by decide) (by decide) (by decide) hencode]
        at hle
      exact absurd hle (Nat.not_le_of_lt hlt)

/-- Names that fit into their columns and a text that Kubernetes leaves as it is are enough for a
plan to be run as it was planned; they are also needed, unless a value that a reference puts in
brings dollar signs back. -/
theorem runsAsPlanned_iff (hitems : envItems run job = .ok items)
    (hsteps : forall s, s ∈ run.steps -> Distinct s) (hencode : encode run.steps = .ok text)
    (hplan : ("OSTIA_PLAN", .value text) ∈ items) (fields : String -> String) :
    ((forall s, s ∈ run.steps -> FitsColumn s) ∧
        expand (podEnv fields (earlier items) []) text = text ->
      RunsAsPlanned fields items text run.steps) ∧
    ((forall e, e ∈ podEnv fields (earlier items) [] -> '$' ∉ e.2.toList) ->
      RunsAsPlanned fields items text run.steps ->
        (forall s, s ∈ run.steps -> FitsColumn s) ∧
          expand (podEnv fields (earlier items) []) text = text) := by
  constructor
  · intro h
    exact runsAsPlanned_of_unchanged hitems hsteps hencode hplan h.1 h.2
  · intro henv h
    exact ⟨fitsColumn_of_roundTrips h.1, unchanged_of_runsAsPlanned hitems hencode hplan henv h⟩

end Planned

/-- A run, as a job of one pod. -/
def runOf (steps : List Step) : Run where
  runId := "k8s-cpu-1"
  steps := steps
  env := "default"
  preset := "dev"
  buildDir := "/w/build/default/dev"
  buildJobs := 4
  testJobs := 4
  windows := ⟨600, 900, 3600, 600⟩
  gitSha := "3f2a9c1"
  isGpu := false
  profileEnv := []
  envVars := []
  captureEnv := []

def onePod : Job := ⟨0, false, [], 1⟩

def planOf (steps : List Step) : String := String.ofList (['\n'].intercalate (steps.map lineOf))

/-- The entries of its environment. -/
def itemsOf (steps : List Step) : List (String × EnvValue) :=
  [("OSTIA_WORK", .value "/w"), ("OSTIA_PLAN", .value (planOf steps)),
    ("OSTIA_ENV", .value "default"), ("OSTIA_PRESET", .value "dev"),
    ("OSTIA_BUILD_DIR", .value "/w/build/default/dev"), ("OSTIA_CODE_WAIT", .value "600"),
    ("OSTIA_COLLECT_WINDOW", .value "600"), ("OSTIA_TIMEOUT", .value "3600"),
    ("HOME", .value "/w/home"), ("CMAKE_BUILD_PARALLEL_LEVEL", .value "4"),
    ("CTEST_PARALLEL_LEVEL", .value "4"), ("CTEST_NO_TESTS_ACTION", .value "error"),
    ("OSTIA_GIT_SHA", .value "3f2a9c1"), ("NODE_NAME", .fieldRef "spec.nodeName")]

/-- Three steps, with words that are quoted and a dollar sign. -/
def quotedSteps : List Step :=
  [⟨"install", "install", ["pixi", "install"]⟩,
    ⟨"test", "command", ["sh", "-c", "ctest -L 'a b' && echo $HOME"]⟩,
    ⟨"list", "report", ["cat", "it's", ""]⟩]

theorem runsAsPlanned_quotedSteps :
    RunsAsPlanned id (itemsOf quotedSteps) (planOf quotedSteps) (runOf quotedSteps).steps := by
  have hitems : envItems (runOf quotedSteps) onePod = .ok (itemsOf quotedSteps) := by decide
  have hmade : forall s, s ∈ (runOf quotedSteps).steps ->
      s.made = true ∧ s.name.toList.getLast? ≠ some '\n' := by decide
  have hsteps : forall s, s ∈ (runOf quotedSteps).steps -> Distinct s :=
    fun s hs => distinct_of_made (hmade s hs).1
  have hfits : forall s, s ∈ (runOf quotedSteps).steps -> FitsColumn s :=
    fun s hs => (fitsColumn_of_made (hmade s hs).1).mpr (hmade s hs).2
  have hencode : encode (runOf quotedSteps).steps = .ok (planOf quotedSteps) := by decide
  have hplan : ("OSTIA_PLAN", EnvValue.value (planOf quotedSteps)) ∈ itemsOf quotedSteps :=
    List.mem_cons_of_mem _ List.mem_cons_self
  exact (runsAsPlanned_iff hitems hsteps hencode hplan id).1 ⟨hfits, by decide +kernel⟩

/-- A command that prints the process id of its shell. -/
def dollarSteps : List Step := [⟨"command", "command", ["sh", "-c", "echo $$"]⟩]

/-- The process id is no longer printed: one of the two dollar signs is gone. -/
theorem not_runsAsPlanned_dollars :
    ¬ RunsAsPlanned id (itemsOf dollarSteps) (planOf dollarSteps) (runOf dollarSteps).steps := by
  intro h
  have hitems : envItems (runOf dollarSteps) onePod = .ok (itemsOf dollarSteps) := by decide
  have hexpand := unchanged_of_runsAsPlanned hitems (by decide) (by decide) (by decide) h
  exact absurd hexpand (by decide)

end StepPlan
end Dev
end Ostia

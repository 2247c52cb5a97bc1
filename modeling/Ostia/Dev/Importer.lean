import Mathlib.Data.List.DropRight
import Ostia.Dev.Links
import Ostia.Dev.Manifest
import Ostia.Foundation.Effect

/-!
# Importing a capture as a fixture

A capture that was accepted is copied to a new folder, and the copy is checked against the manifest
that was accepted.  The source can change at any time, and every step can fail: either the folder
holds what was accepted and its golden file, or it is removed again.
-/

namespace Ostia
namespace Dev
namespace Importer

open Foundation
open JsonText (FloatText)
open Text (violation)
open Manifest (Entry Faults Python Refusal accept digestOf sortedFields verifyDir)

variable {F : Type} [FloatText F]

/-!
## The name of a fixture
-/

def isWord (c : Char) : Bool := 'a' ≤ c && c ≤ 'z' || '0' ≤ c && c ≤ '9'

/-- Words joined by single hyphens, the first of them begun or not. -/
def joinsWords : Bool -> List Char -> Bool
  | begun, [] => begun
  | begun, c :: rest =>
      if isWord c then joinsWords true rest else begun && c == '-' && joinsWords false rest

/-- Lowercase letters and digits, joined by single hyphens. -/
def isName (name : String) : Bool := joinsWords false name.toList

/-- Every run of other characters is one hyphen. -/
def hyphened : Bool -> List Char -> List Char
  | _, [] => []
  | inRun, c :: rest =>
      if isWord c then c :: hyphened false rest
      else if inRun then hyphened true rest
      else '-' :: hyphened true rest

def slug (lower : String -> String) (text : String) : String :=
  String.ofList (((hyphened false (lower text).toList).dropWhile (· == '-')).rdropWhile (· == '-'))

/-- What ends an import without a fixture. -/
inductive Raised where
  | usage (text : String)
  | checkFailed (text : String)
  | infra
  | exit (code : Int)
  /-- CaptureRejected, for the copy. -/
  | rejected (reason : String)
  | exn (e : Exn)

def noName (problem : String) : Raised :=
  .usage (violation problem []
    "a captured fixture is named <provider>-<instance type> (RFC-0003 §9)"
    "pass --name <provider>-<instance-type>, such as --name gcp-g2-standard-16" "RFC-0003 §9")

/-- The provider and the instance type of a document. -/
def named (F : Type) [FloatText F] (metaText : Except Exn String) :
    Except Exn (Value F × Value F) := do
  let doc ← JsonText.loads (F := F) (← metaText)
  pure (← doc.item "provider", ← doc.item "instance_type")

def joinedName (name : String) : Except Raised String :=
  if isName name then .ok name
  else .error (noName "meta.json's provider and instance type make no fixture name")

def fixtureName (F : Type) [FloatText F] (lower : String -> String)
    (metaText : Except Exn String) : Except Raised String :=
  match named F metaText with
  | .ok (.str provider, .str instanceType) =>
      if provider = "unknown" ∨ instanceType = "unknown" then
        .error (noName "meta.json records the provider or instance type as unknown")
      else joinedName (slug lower provider ++ "-" ++ slug lower instanceType)
  | .ok _ => .error (noName "meta.json does not name the provider and instance type")
  | .error e =>
      if e = .osError ∨ e.isValueError ∨ e = .keyError ∨ e = .typeError then
        .error (noName "meta.json does not name the provider and instance type")
      else .error (.exn e)

def checkName (name : String) : Except Raised String :=
  if isName name then .ok name
  else .error (noName "--name must be lowercase letters and digits joined by single hyphens")

/-!
## The folder and what can happen
-/

/-- What is at the path of the fixture. -/
inductive Target where
  | absent
  | folder (files : OrdMap String Entry)
  /-- A file, a symlink or a device. -/
  | other

def Target.isAbsent : Target -> Bool
  | .absent => true
  | _ => false

def Target.put (name : String) (entry : Entry) : Target -> Target
  | .folder files => .folder (files.insert name entry)
  | target => target

def Target.files : Target -> OrdMap String Entry
  | .folder files => files
  | _ => .empty

/-- What the copy of one file comes to; one that fails can leave something. -/
inductive Copy where
  | file (bytes : Content)
  | symlink
  | fails (left : Option Entry) (e : Exn)

def Copy.placed : Copy -> Option Entry
  | .file bytes => some (.file bytes)
  | .symlink => some .symlink
  | .fails _ _ => none

/-- The answers that an import gets. -/
structure Env where
  /-- The directory of the capture when it is checked, if it is one. -/
  capture : Option (List (String × Entry))
  checks : Faults
  metaText : Except Exn String
  lower : String -> String
  ready : Except Raised Unit
  probe : Except Exn Unit
  mkdir : Except Exn Unit
  /-- The copy of a file, when its turn comes. -/
  copied : String -> Copy
  copyChecks : Faults
  scandir : List (String × Entry) -> List (String × Entry)
  /-- A directory is listed in any order. -/
  scandir_perm : forall entries, (scandir entries).Perm entries
  build : Except Exn Int
  /-- What the tool prints as the model of a folder. -/
  model : OrdMap String Entry -> Except Raised String
  /-- Why the golden file could not be written, and what is left of it. -/
  expected : Option (Option Entry × Exn)
  leaks : OrdMap String Entry -> Except Exn Int
  /-- What a removal leaves of a folder. -/
  remains : OrdMap String Entry -> Target
  /-- The text of a path in the directory of the capture. -/
  path : String -> String

abbrev M (A : Type) := Effect Target Raised A

variable (py : Python F) (env : Env)

def ofExn {A : Type} (r : Except Exn A) : Except Raised A := r.mapError .exn

def ofRefusal : Refusal -> Raised
  | .rejected reason => .rejected reason
  | .infra => .infra
  | .exn e => .exn e

def rmtree : M Unit := Effect.modify fun target =>
  match target with
  | .folder files => env.remains files
  | target => target

/-- Whatever is raised, the folder is removed. -/
def undoing (m : M Unit) : M Unit :=
  m.handle fun e => rmtree env >>= fun _ => Effect.throw e

/-!
## The copy
-/

def put (name : String) (entry : Entry) : M Unit := Effect.modify (Target.put name entry)

/-- A file that could not be written, and what is left of it. -/
def broken (name : String) (left : Option Entry) (e : Exn) : M Unit :=
  match left with
  | some entry => put name entry >>= fun _ => Effect.throw (.exn e)
  | none => Effect.throw (.exn e)

def copyFile (name : String) : M Unit :=
  match env.copied name with
  | .file bytes => put name (.file bytes)
  | .symlink => put name .symlink
  | .fails left e => broken name left e

/-- The names that are copied, the manifest last. -/
def copyNames (doc : Value F) : Except Raised (List String) :=
  match doc.item "files" with
  | .ok (.dict listed) => .ok ((sortedFields listed).map Prod.fst ++ ["manifest.json"])
  | .ok _ => .error (.exn .typeError)
  | .error e => .error (.exn e)

def verifyCopy (doc : Value F) (target : Target) : Except Raised Unit :=
  match verifyDir py env.copyChecks (env.scandir target.files.entries) doc with
  | .ok _ => .ok ()
  | .error refusal => .error (ofRefusal refusal)

def fillFolder (doc : Value F) : M Unit := do
  let names ← Effect.ofExcept (copyNames doc)
  Effect.each (copyFile env) names
  let target ← Effect.get
  Effect.ofExcept (verifyCopy py env doc target)

def copyCapture (chosen : String) (doc : Value F) : M Unit := do
  Effect.ofExcept (ofExn env.probe)
  let target ← Effect.get
  Effect.throwIf (!target.isAbsent) (.usage (violation ("captured/" ++ chosen ++ " already exists")
    [] "an import never overwrites a committed fixture"
    "pass another --name, or remove the old folder first and review the change" "RFC-0003 §9"))
  Effect.ofExcept (ofExn env.mkdir)
  Effect.modify fun _ => .folder .empty
  undoing env (fillFolder py env doc)

/-!
## The command
-/

def acceptCapture : Except Raised (Value F) :=
  match accept py env.checks env.capture with
  | .ok doc => .ok doc
  | .error (.rejected reason) =>
      .error (.checkFailed (violation "the capture was rejected" [reason]
        "only a sanitized capture that passed the leak check and its hashes is imported"
        "capture the machine again; see its diagnostics.txt" "RFC-0003 §4"))
  | .error refusal => .error (ofRefusal refusal)

/-- A code of the capture tool: a lowercase letter, and at most 40 of the same kind. -/
def isReasonCode (text : String) : Bool :=
  match text.toList with
  | [] => false
  | c :: rest =>
      ('a' ≤ c && c ≤ 'z') && rest.length ≤ 40 &&
        rest.all fun d => isWord d || d == '_'

def reasonText : Option (Value F) -> String
  | some (.str text) => if isReasonCode text then text else "non-code reason"
  | _ => "non-code reason"

def dataFile : Option (Value F) -> String
  | some (.str text) => if text ∈ Manifest.FILES then text else "non-data file"
  | _ => "non-data file"

def missingLines : Value F -> List String
  | .list items => items.filterMap fun m =>
      match m with
      | .dict fields => some ("missing: " ++ dataFile (Value.lookup "file" fields) ++ " (" ++
          reasonText (Value.lookup "reason" fields) ++ ")")
      | _ => none
  | _ => []

def checkComplete (doc : Value F) : Except Raised Unit := do
  let status ← ofExn (doc.item "status")
  if status.differs (.str "complete") then
    let missing ← ofExn (doc.item "missing")
    .error (.checkFailed (violation ("the capture is " ++ py.str status ++ ", not complete")
      (missingLines missing)
      "a fixture records the whole machine, so a partial capture is not imported"
      "fix the failed source and capture the machine again" "RFC-0003 §4"))
  else .ok ()

/-- Everything before the copy. -/
def checked (name : Option String) : Except Raised (Value F × String) := do
  env.ready
  let doc ← acceptCapture py env
  checkComplete py doc
  match name.filter (· ≠ "") with
  | some name => do pure (doc, ← checkName name)
  | none => do pure (doc, ← fixtureName F env.lower env.metaText)

def buildTool : Except Raised Unit := do
  let code ← ofExn env.build
  if code ≠ 0 then .error (.exit code) else .ok ()

def writeExpected (text : String) : M Unit :=
  match env.expected with
  | none => put "expected.json" (.file (.utf8 text))
  | some (left, e) => broken "expected.json" left e

def shownNames (doc : Value F) : List String :=
  match doc.item "files" with
  | .ok (.dict listed) =>
      Sorting.stableSort id (listed.map fun e => dataFile (some (Value.str (F := F) e.1)))
  | _ => []

def scanLeaks (chosen : String) (doc : Value F) (files : OrdMap String Entry) :
    Except Raised Unit := do
  let code ← ofExn (env.leaks files)
  if code ≠ 0 then
    .error (.checkFailed (violation
      ("fixture-leaks found identifiers in captured/" ++ chosen ++ "; the folder was removed")
      ["capture: " ++ env.path ""]
      "a committed fixture holds no machine identifier (RFC-0003 §3)"
      ("pixi run ostia-dev check fixture-leaks --files " ++
        " ".intercalate ((shownNames doc ++ ["manifest.json"]).map env.path)) "RFC-0003 §3"))
  else .ok ()

def addGolden (chosen : String) (doc : Value F) : M Unit := do
  Effect.ofExcept (buildTool env)
  let target ← Effect.get
  let text ← Effect.ofExcept (env.model target.files)
  writeExpected env text
  let target ← Effect.get
  Effect.ofExcept (scanLeaks env chosen doc target.files)

/-- The import, up to the two messages that it ends with. -/
def importCapture (name : Option String) : M Unit := do
  let found ← Effect.ofExcept (checked py env name)
  copyCapture py env found.2 found.1
  undoing env (addGolden env found.2 found.1)

/-!
## What an import comes to
-/

variable {py : Python F} {env : Env}

/-- A folder with the listed files as they were copied, each with the hash that was accepted. -/
structure Copied (py : Python F) (env : Env) (doc : Value F) (listed : List (String × Value F))
    (files : OrdMap String Entry) : Prop where
  listing : doc.item "files" = .ok (.dict listed)
  hashed : forall e, e ∈ listed -> exists bytes, files.find? e.1 = some (.file bytes) ∧
    env.copied e.1 = .file bytes ∧ e.2 = digestOf py bytes
  manifest : exists bytes, files.find? "manifest.json" = some (.file bytes)
  others : forall name, name ∉ listed.map Prod.fst -> name ≠ "manifest.json" ->
    files.find? name = none

/-- What was accepted before the copy, and the name of the fixture. -/
structure Chosen (py : Python F) (env : Env) (doc : Value F) (chosen : String) : Prop where
  accepted : accept py env.checks env.capture = .ok doc
  complete : doc.item "status" = .ok (.str "complete")
  nonempty : chosen ≠ ""
  plain : forall c, c ∈ chosen.toList -> isWord c = true ∨ c = '-'

/-- A fixture: a copy of what was accepted with the golden file that the tool printed for it, in
which the leak scan found nothing. -/
def IsFixture (py : Python F) (env : Env) (target : Target) : Prop :=
  exists doc chosen listed files golden, Chosen py env doc chosen ∧
    Copied py env doc listed files ∧ env.model files = .ok golden ∧
    target = .folder (files.insert "expected.json" (.file (.utf8 golden))) ∧
    env.leaks (files.insert "expected.json" (.file (.utf8 golden))) = .ok 0

/-- The path is as it was, or it was free and a new folder there was removed. -/
def Undone (env : Env) (before after : Target) : Prop :=
  after = before ∨ before = .absent ∧ exists files, after = env.remains files

/-!
## Names
-/

theorem mem_of_joinsWords {begun : Bool} {cs : List Char} (h : joinsWords begun cs = true) :
    forall c, c ∈ cs -> isWord c = true ∨ c = '-' := by
  induction cs generalizing begun with
  | nil =>
      intro c hc
      cases hc
  | cons head rest ih =>
      rw [joinsWords] at h
      rw [List.forall_mem_cons]
      split_ifs at h with hword
      · exact ⟨Or.inl hword, ih h⟩
      · rw [Bool.and_eq_true, Bool.and_eq_true, beq_iff_eq] at h
        exact ⟨Or.inr h.1.2, ih h.2⟩

theorem ne_empty_of_isName {name : String} (h : isName name = true) : name ≠ "" := by
  intro heq
  rw [heq] at h
  cases h

theorem isName_joinedName {joined name : String} (h : joinedName joined = .ok name) :
    isName name = true := by
  unfold joinedName at h
  split_ifs at h with hname
  cases h
  exact hname

theorem isName_fixtureName {lower : String -> String} {metaText : Except Exn String}
    {name : String} (h : fixtureName F lower metaText = .ok name) : isName name = true := by
  unfold fixtureName at h
  split at h
  · split_ifs at h
    exact isName_joinedName h
  · cases h
  · split_ifs at h

theorem isName_checkName {given name : String} (h : checkName given = .ok name) :
    isName name = true := by
  unfold checkName at h
  split_ifs at h with hname
  cases h
  exact hname

theorem acceptCapture_eq_ok {doc : Value F} (h : acceptCapture py env = .ok doc) :
    accept py env.checks env.capture = .ok doc := by
  unfold acceptCapture at h
  cases haccept : accept py env.checks env.capture with
  | ok accepted =>
      rw [haccept] at h
      cases h
      rfl
  | error refusal =>
      rw [haccept] at h
      cases refusal with
      | rejected reason => cases h
      | infra => cases h
      | exn e => cases h

theorem checkComplete_eq_ok {doc : Value F} {u : Unit} (h : checkComplete py doc = .ok u) :
    doc.item "status" = .ok (.str "complete") := by
  obtain ⟨status, hstatus, h⟩ := Fallible.bind_eq_ok.mp h
  split_ifs at h with hdiffers
  · obtain ⟨_, _, h⟩ := Fallible.bind_eq_ok.mp h
    cases h
  · have hsame := Manifest.eq_of_not_differs (Bool.eq_false_of_not_eq_true hdiffers)
    rw [Fallible.eq_ok_of_mapError hstatus, Manifest.eq_str_iff.mp hsame]

theorem checked_eq_ok {name : Option String} {found : Value F × String}
    (h : checked py env name = .ok found) : Chosen py env found.1 found.2 := by
  obtain ⟨_, _, h⟩ := Fallible.bind_eq_ok.mp h
  obtain ⟨doc, hdoc, h⟩ := Fallible.bind_eq_ok.mp h
  obtain ⟨_, hcomplete, h⟩ := Fallible.bind_eq_ok.mp h
  have hname : found.1 = doc ∧ isName found.2 = true := by
    cases hgiven : name.filter (· ≠ "") with
    | some given =>
        rw [hgiven] at h
        obtain ⟨chosen, hchosen, h⟩ := Fallible.bind_eq_ok.mp h
        cases h
        exact ⟨rfl, isName_checkName hchosen⟩
    | none =>
        rw [hgiven] at h
        obtain ⟨chosen, hchosen, h⟩ := Fallible.bind_eq_ok.mp h
        cases h
        exact ⟨rfl, isName_fixtureName hchosen⟩
  rw [hname.1]
  constructor
  · exact acceptCapture_eq_ok hdoc
  · exact checkComplete_eq_ok hcomplete
  · exact ne_empty_of_isName hname.2
  · exact mem_of_joinsWords hname.2

/-!
## The copy
-/

/-- What has been copied of some names. -/
structure Filled (env : Env) (done : List String) (files : OrdMap String Entry) : Prop where
  copied : forall name, name ∈ done -> exists entry, (env.copied name).placed = some entry ∧
    files.find? name = some entry
  others : forall name, name ∉ done -> files.find? name = none

def IsFolder (target : Target) : Prop := exists files, target = .folder files

def Filling (env : Env) (done : List String) (target : Target) : Prop :=
  exists files, target = .folder files ∧ Filled env done files

theorem filled_insert {done : List String} {files : OrdMap String Entry}
    (h : Filled env done files) {name : String} {entry : Entry}
    (hentry : (env.copied name).placed = some entry) :
    Filled env (done ++ [name]) (files.insert name entry) := by
  constructor
  · intro other hother
    rw [OrdMap.find?_insert]
    split_ifs with heq
    · rw [heq]
      exact ⟨entry, hentry, rfl⟩
    · apply h.copied
      rcases List.mem_append.mp hother with hdone | hlast
      · exact hdone
      · exact absurd (List.mem_singleton.mp hlast) heq
  · intro other hother
    rw [List.mem_append, not_or, List.mem_singleton] at hother
    rw [OrdMap.find?_insert_of_ne _ _ hother.2]
    exact h.others other hother.1

theorem holds_put (name : String) (entry : Entry) {R : Raised -> Target -> Prop} :
    (put name entry).Holds IsFolder (fun _ => True) (fun _ => IsFolder) R := by
  refine Effect.holds_modify (fun _ _ => trivial) ?_
  intro target htarget
  obtain ⟨files, rfl⟩ := htarget
  exact ⟨files.insert name entry, rfl⟩

theorem holds_broken (name : String) (left : Option Entry) (e : Exn) {Q : Unit -> Target -> Prop} :
    (broken name left e).Holds IsFolder (fun _ => True) Q (fun _ => IsFolder) := by
  cases left with
  | some entry => exact (holds_put name entry).bind (fun _ => Effect.holds_throw (fun _ h => h))
  | none => exact Effect.holds_throw (fun _ h => h)

theorem holds_copyFile (done : List String) (name : String) :
    (copyFile env name).Holds (Filling env done) (fun _ => True)
      (fun _ => Filling env (done ++ [name])) (fun _ => IsFolder) := by
  have hput : forall entry, (env.copied name).placed = some entry ->
      (put name entry).Holds (Filling env done) (fun _ => True)
        (fun _ => Filling env (done ++ [name])) (fun _ => IsFolder) := by
    intro entry hentry
    refine Effect.holds_modify (fun _ _ => trivial) ?_
    intro target htarget
    obtain ⟨files, rfl, hfilled⟩ := htarget
    exact ⟨files.insert name entry, rfl, filled_insert hfilled hentry⟩
  unfold copyFile
  cases hcopied : env.copied name with
  | file bytes => exact hput _ (congrArg Copy.placed hcopied)
  | symlink => exact hput _ (congrArg Copy.placed hcopied)
  | fails left e =>
      refine (holds_broken name left e).weaken ?_ (fun _ h => h) (fun _ _ h => h) (fun _ _ h => h)
      intro target htarget
      obtain ⟨files, htarget, _⟩ := htarget
      exact ⟨files, htarget⟩

omit [FloatText F] in
theorem copyNames_eq_ok {doc : Value F} {names : List String} (h : copyNames doc = .ok names) :
    exists listed, doc.item "files" = .ok (.dict listed) ∧
      forall name, name ∈ names <-> name ∈ listed.map Prod.fst ∨ name = "manifest.json" := by
  unfold copyNames at h
  split at h
  · rename_i listed hlisted
    cases h
    refine ⟨listed, hlisted, ?_⟩
    intro name
    have hperm := (Sorting.stableSort_perm Prod.fst listed).map Prod.fst
    rw [List.mem_append, List.mem_singleton]
    exact or_congr_left hperm.mem_iff
  · cases h
  · cases h

/-- A copy that passes the check has what was accepted. -/
theorem copied_of_verifyCopy {doc : Value F} {listed : List (String × Value F)}
    (hlisted : doc.item "files" = .ok (.dict listed)) {names : List String}
    (hnames : forall name, name ∈ names <-> name ∈ listed.map Prod.fst ∨ name = "manifest.json")
    {files : OrdMap String Entry} (hfilled : Filled env names files) {u : Unit}
    (h : verifyCopy py env doc (.folder files) = .ok u) : Copied py env doc listed files := by
  have hverified : Manifest.Verified py (env.scandir files.entries) listed := by
    unfold verifyCopy at h
    split at h
    · rename_i hverify
      exact Manifest.verifyDir_verified hlisted hverify
    · cases h
  have hscan : forall name entry, (name, entry) ∈ env.scandir files.entries <->
      files.find? name = some entry := by
    intro name entry
    rw [(env.scandir_perm files.entries).mem_iff]
    exact OrdMap.mem_entries
  constructor
  · exact hlisted
  · intro e he
    obtain ⟨bytes, hbytes, hdigest⟩ := hverified.hashed e he
    have hfile := (hscan _ _).mp hbytes
    obtain ⟨entry, hentry, hfind⟩ :=
      hfilled.copied e.1 ((hnames e.1).mpr (Or.inl (List.mem_map_of_mem he)))
    rw [hfile] at hfind
    cases hfind
    refine ⟨bytes, hfile, ?_, hdigest⟩
    cases hcopied : env.copied e.1 with
    | file bytes' =>
        rw [hcopied] at hentry
        cases hentry
        rfl
    | symlink =>
        rw [hcopied] at hentry
        cases hentry
    | fails left e =>
        rw [hcopied] at hentry
        cases hentry
  · obtain ⟨entry, _, hfind⟩ := hfilled.copied "manifest.json" ((hnames _).mpr (Or.inr rfl))
    obtain ⟨bytes, hbytes⟩ := hverified.regular _ ((hscan _ _).mpr hfind)
    exact ⟨bytes, hfind.trans (congrArg some hbytes)⟩
  · intro name hname hmanifest
    apply hfilled.others
    rw [hnames]
    exact not_or.mpr ⟨hname, hmanifest⟩

theorem holds_fillFolder (doc : Value F) :
    (fillFolder py env doc).Holds (fun target => target = .folder .empty) (fun _ => True)
      (fun _ target => exists listed files, target = .folder files ∧
        Copied py env doc listed files) (fun _ => IsFolder) := by
  apply Effect.holds_ofExcept_bind
  · intro e target _ htarget
    exact ⟨_, htarget⟩
  intro names hnames
  obtain ⟨listed, hlisted, hmem⟩ := copyNames_eq_ok hnames
  refine Effect.Holds.bind (Q := fun _ => Filling env names) ?_ (fun _ => ?_)
  · refine (Effect.holds_each (J := Filling env) names (fun done name _ =>
      holds_copyFile done name) []).weaken ?_ (fun _ h => h) (fun _ _ h => h) (fun _ _ h => h)
    intro target htarget
    refine ⟨.empty, htarget, ?_, fun _ _ => rfl⟩
    intro name hname
    cases hname
  apply Effect.holds_get_bind
  intro target htarget
  obtain ⟨files, rfl, hfilled⟩ := htarget
  apply Effect.holds_ofExcept
  · intro u b hverify hb
    exact ⟨listed, files, hb, copied_of_verifyCopy hlisted hmem hfilled hverify⟩
  · intro e b _ hb
    exact ⟨files, hb⟩

/-- What fails in a folder is undone. -/
theorem holds_undoing {m : M Unit} {P : Target -> Prop} {Q : Unit -> Target -> Prop}
    (hm : m.Holds P (fun _ => True) Q (fun _ => IsFolder)) :
    (undoing env m).Holds P (fun _ => True) Q (fun _ => Undone env .absent) := by
  refine hm.handle (fun e => ?_)
  refine Effect.Holds.bind (Q := fun _ => Undone env .absent) ?_
    (fun _ => Effect.holds_throw (fun _ h => h))
  refine Effect.holds_modify (fun _ _ => trivial) ?_
  intro target htarget
  obtain ⟨files, rfl⟩ := htarget
  exact Or.inr ⟨rfl, files, rfl⟩

theorem isAbsent_eq_true {target : Target} (h : target.isAbsent = true) : target = .absent := by
  cases target with
  | absent => rfl
  | folder files => cases h
  | other => cases h

theorem holds_copyCapture (chosen : String) (doc : Value F) (before : Target) :
    (copyCapture py env chosen doc).Holds (· = before) (fun _ => True)
      (fun _ target => before = .absent ∧ exists listed files, target = .folder files ∧
        Copied py env doc listed files) (fun _ => Undone env before) := by
  apply Effect.holds_ofExcept_bind
  · exact fun _ _ _ h => Or.inl h
  intro _ _
  apply Effect.holds_get_bind
  intro target htarget
  apply Effect.holds_throwIf_bind
  · exact fun _ _ h => Or.inl (h.trans htarget)
  intro habsent
  rw [Bool.not_eq_false'] at habsent
  have hbefore : before = .absent := htarget.symm.trans (isAbsent_eq_true habsent)
  rw [htarget]
  apply Effect.holds_ofExcept_bind
  · exact fun _ _ _ h => Or.inl h
  intro _ _
  refine Effect.Holds.bind (Q := fun _ target => target = .folder .empty)
    (Effect.holds_modify (fun _ _ => trivial) (fun _ _ => rfl)) (fun _ => ?_)
  rw [hbefore]
  exact (holds_undoing (holds_fillFolder doc)).weaken (fun _ h => h) (fun _ h => h)
    (fun _ _ h => ⟨rfl, h⟩) (fun _ _ h => h)

/-!
## The golden file
-/

omit [FloatText F] in
theorem scanLeaks_eq_ok {chosen : String} {doc : Value F} {files : OrdMap String Entry} {u : Unit}
    (h : scanLeaks env chosen doc files = .ok u) : env.leaks files = .ok 0 := by
  obtain ⟨code, hcode, h⟩ := Fallible.bind_eq_ok.mp h
  split_ifs at h with hzero
  rw [Fallible.eq_ok_of_mapError hcode, not_not.mp hzero]

omit [FloatText F] in
theorem holds_addGolden (chosen : String) (doc : Value F) (files : OrdMap String Entry) :
    (addGolden env chosen doc).Holds (· = .folder files) (fun _ => True)
      (fun _ target => exists golden, env.model files = .ok golden ∧
        target = .folder (files.insert "expected.json" (.file (.utf8 golden))) ∧
        env.leaks (files.insert "expected.json" (.file (.utf8 golden))) = .ok 0)
      (fun _ => IsFolder) := by
  apply Effect.holds_ofExcept_bind
  · exact fun _ _ _ h => ⟨files, h⟩
  intro _ _
  apply Effect.holds_get_bind
  rintro target rfl
  apply Effect.holds_ofExcept_bind
  · exact fun _ _ _ h => ⟨files, h⟩
  intro golden hgolden
  refine Effect.Holds.bind (Q := fun _ target =>
    target = .folder (files.insert "expected.json" (.file (.utf8 golden)))) ?_ (fun _ => ?_)
  · unfold writeExpected
    cases env.expected with
    | none =>
        refine Effect.holds_modify (fun _ _ => trivial) ?_
        rintro target rfl
        rfl
    | some failure =>
        exact (holds_broken _ _ _).weaken (fun _ h => ⟨files, h⟩) (fun _ h => h)
          (fun _ _ h => h) (fun _ _ h => h)
  apply Effect.holds_get_bind
  rintro target rfl
  apply Effect.holds_ofExcept
  · intro u b hscan hb
    exact ⟨golden, hgolden, hb, scanLeaks_eq_ok hscan⟩
  · exact fun _ _ _ h => ⟨_, h⟩

theorem holds_importCapture (name : Option String) (before : Target) :
    (importCapture py env name).Holds (· = before) (fun _ => True)
      (fun _ target => before = .absent ∧ IsFixture py env target)
      (fun _ => Undone env before) := by
  apply Effect.holds_ofExcept_bind
  · exact fun _ _ _ h => Or.inl h
  intro found hfound
  have hchosen := checked_eq_ok hfound
  refine (holds_copyCapture found.2 found.1 before).bind (fun _ => ?_)
  intro target htarget
  obtain ⟨rfl, listed, files, htarget, hcopied⟩ := htarget
  have hgolden : (undoing env (addGolden env found.2 found.1)).Holds (· = .folder files)
      (fun _ => True) (fun _ target => Target.absent = .absent ∧ IsFixture py env target)
      (fun _ => Undone env .absent) := by
    refine (holds_undoing (holds_addGolden found.2 found.1 files)).weaken (fun _ h => h)
      (fun _ h => h) ?_ (fun _ _ h => h)
    intro _ b hb
    obtain ⟨golden, hgolden, hb, hleaks⟩ := hb
    exact ⟨rfl, found.1, found.2, listed, files, golden, hchosen, hcopied, hgolden, hb, hleaks⟩
  exact hgolden target htarget

theorem fixture_of_import {name : Option String} {before : Target}
    (h : (importCapture py env name before).result = .ok ()) :
    before = .absent ∧ IsFixture py env (importCapture py env name before).state := by
  have hend := (@holds_importCapture F _ py env name before before rfl).2
  rw [h] at hend
  exact hend

/--
However the capture changes while it is imported and whatever fails: an import that returns made a
fixture where nothing was, and one that raises left the path as it was, or removed its new folder.
-/
theorem import_allOrNothing (py : Python F) (env : Env) (name : Option String) (before : Target) :
    ((importCapture py env name before).result = .ok () -> before = .absent ∧
      IsFixture py env (importCapture py env name before).state) ∧
    forall e, (importCapture py env name before).result = .error e ->
      Undone env before (importCapture py env name before).state := by
  constructor
  · exact fixture_of_import
  · intro e hresult
    have hend := (@holds_importCapture F _ py env name before before rfl).2
    rw [hresult] at hend
    exact hend

/-!
## Imports that nothing disturbs
-/

/-- The files of the capture do not change, and nothing fails on the way. -/
structure Quiet (env : Env) (entries : List (String × Entry)) : Prop where
  ready : env.ready = .ok ()
  probe : env.probe = .ok ()
  mkdir : env.mkdir = .ok ()
  copied : forall name bytes, (name, .file bytes) ∈ entries -> env.copied name = .file bytes
  copyChecks : env.copyChecks.Quiet
  build : env.build = .ok 0
  model : forall files, (env.model files).isOk = true
  expected : env.expected = none
  leaks : forall files, env.leaks files = .ok 0

section Undisturbed

variable {entries : List (String × Entry)} {doc : Value F} {listed : List (String × Value F)}
  {names : List String}

/-- What was copied of a capture that passed the check passes it too. -/
theorem verifyCopy_ok (quiet : Quiet env entries) (hverified : Manifest.Verified py entries listed)
    (hlisted : doc.item "files" = .ok (.dict listed))
    (hnames : forall name, name ∈ names <-> name ∈ listed.map Prod.fst ∨ name = "manifest.json")
    (hcopied : forall name, name ∈ names -> exists bytes, env.copied name = .file bytes)
    {files : OrdMap String Entry} (hfilled : Filled env names files) :
    verifyCopy py env doc (.folder files) = .ok () := by
  have hscan : forall name entry, (name, entry) ∈ env.scandir files.entries <->
      files.find? name = some entry := by
    intro name entry
    rw [(env.scandir_perm files.entries).mem_iff]
    exact OrdMap.mem_entries
  have hkeys : ((env.scandir files.entries).map Prod.fst).Nodup :=
    ((env.scandir_perm files.entries).map Prod.fst).nodup_iff.mpr files.keys_nodup
  have hmem : forall e, e ∈ env.scandir files.entries -> e.1 ∈ names := by
    intro e he
    by_contra hnot
    have hfind := (hscan e.1 e.2).mp he
    rw [hfilled.others e.1 hnot] at hfind
    cases hfind
  have hfile : forall name bytes, name ∈ names -> env.copied name = .file bytes ->
      files.find? name = some (.file bytes) := by
    intro name bytes hname hbytes
    obtain ⟨entry, hentry, hfind⟩ := hfilled.copied name hname
    rw [hbytes] at hentry
    cases hentry
    exact hfind
  have hcopy : Manifest.Verified py (env.scandir files.entries) listed := by
    constructor
    · intro e he
      rcases (hnames e.1).mp (hmem e he) with hin | hmanifest
      · exact List.mem_append_left _ hin
      · rw [hmanifest]
        exact List.mem_append_right _ List.mem_cons_self
    · intro e he
      obtain ⟨bytes, hbytes⟩ := hcopied e.1 (hmem e he)
      have hfind := (hscan e.1 e.2).mp he
      rw [hfile e.1 bytes (hmem e he) hbytes] at hfind
      exact ⟨bytes, (Option.some.inj hfind).symm⟩
    · intro e he
      obtain ⟨bytes, hbytes, hdigest⟩ := hverified.hashed e he
      have hname : e.1 ∈ names := (hnames e.1).mpr (Or.inl (List.mem_map_of_mem he))
      have hsame := hfile e.1 bytes hname (quiet.copied e.1 bytes hbytes)
      exact ⟨bytes, (hscan _ _).mpr hsame, hdigest⟩
  have hverify := Manifest.verifyDir_of_verified quiet.copyChecks hkeys hlisted hcopy
  unfold verifyCopy Target.files
  dsimp only
  rw [hverify]

theorem accept_eq_ok {faults : Faults} (h : accept py faults (some entries) = .ok doc) :
    exists raw listed, ("manifest.json", .file raw) ∈ entries ∧
      Manifest.checkManifest py raw = .ok doc ∧ doc.item "files" = .ok (.dict listed) ∧
      Manifest.Verified py entries listed := by
  obtain ⟨raw, hraw, h⟩ := Fallible.bind_eq_ok.mp h
  obtain ⟨_, _, h⟩ := Fallible.bind_eq_ok.mp h
  obtain ⟨doc', hdoc, h⟩ := Fallible.bind_eq_ok.mp h
  obtain ⟨_, hverify, h⟩ := Fallible.bind_eq_ok.mp h
  cases h
  have hlisted : exists listed, doc.item "files" = .ok (.dict listed) := by
    obtain ⟨files, hfiles, h⟩ := Fallible.bind_eq_ok.mp hverify
    cases files with
    | dict listed => exact ⟨listed, Fallible.eq_ok_of_mapError hfiles⟩
    | none => cases h
    | bool b => cases h
    | int n => cases h
    | float x => cases h
    | str t => cases h
    | list xs => cases h
  obtain ⟨listed, hlisted⟩ := hlisted
  exact ⟨raw, listed, Manifest.readRegular_eq_ok hraw, hdoc, hlisted,
    Manifest.verifyDir_verified hlisted hverify⟩

omit [FloatText F] in
theorem holds_copyFiles (hcopied : forall name, name ∈ names ->
    exists bytes, env.copied name = .file bytes) :
    (Effect.each (copyFile env) names).Holds (fun target => target = .folder .empty)
      (fun _ => True) (fun _ => Filling env names) (fun _ _ => False) := by
  refine (Effect.holds_each (J := Filling env) names ?_ []).weaken ?_ (fun _ h => h)
    (fun _ _ h => h) (fun _ _ h => h)
  · intro done name hname
    obtain ⟨bytes, hbytes⟩ := hcopied name hname
    unfold copyFile
    rw [hbytes]
    refine Effect.holds_modify (fun _ _ => trivial) ?_
    intro target htarget
    obtain ⟨files, rfl, hfilled⟩ := htarget
    exact ⟨_, rfl, filled_insert hfilled (congrArg Copy.placed hbytes)⟩
  · intro target htarget
    refine ⟨.empty, htarget, ?_, fun _ _ => rfl⟩
    intro name hname
    cases hname

theorem holds_fillFolder_quiet (quiet : Quiet env entries)
    (hverified : Manifest.Verified py entries listed)
    (hlisted : doc.item "files" = .ok (.dict listed)) {raw : Content}
    (hraw : ("manifest.json", .file raw) ∈ entries) :
    (fillFolder py env doc).Holds (fun target => target = .folder .empty) (fun _ => True)
      (fun _ => IsFolder) (fun _ _ => False) := by
  apply Effect.holds_ofExcept_bind
  · intro e _ herror
    unfold copyNames at herror
    rw [hlisted] at herror
    cases herror
  intro names hnames
  obtain ⟨listed', hlisted', hmem⟩ := copyNames_eq_ok hnames
  rw [hlisted] at hlisted'
  cases hlisted'
  have hcopied : forall name, name ∈ names -> exists bytes, env.copied name = .file bytes := by
    intro name hname
    rcases (hmem name).mp hname with hin | hmanifest
    · obtain ⟨e, he, rfl⟩ := List.mem_map.mp hin
      obtain ⟨bytes, hbytes, _⟩ := hverified.hashed e he
      exact ⟨bytes, quiet.copied _ _ hbytes⟩
    · rw [hmanifest]
      exact ⟨raw, quiet.copied _ _ hraw⟩
  refine (holds_copyFiles hcopied).bind (fun _ => ?_)
  apply Effect.holds_get_bind
  intro target htarget
  obtain ⟨files, rfl, hfilled⟩ := htarget
  apply Effect.holds_ofExcept
  · exact fun _ _ _ hb => ⟨files, hb⟩
  · intro e b herror _
    rw [verifyCopy_ok quiet hverified hlisted hmem hcopied hfilled] at herror
    cases herror

omit [FloatText F] in
theorem holds_addGolden_quiet (quiet : Quiet env entries) (chosen : String) :
    (addGolden env chosen doc).Holds IsFolder (fun _ => True) (fun _ _ => True)
      (fun _ _ => False) := by
  apply Effect.holds_ofExcept_bind
  · intro e _ herror
    unfold buildTool at herror
    rw [quiet.build] at herror
    cases herror
  intro _ _
  apply Effect.holds_get_bind
  intro target htarget
  apply Effect.holds_ofExcept_bind
  · intro e _ herror
    have hmodel := quiet.model target.files
    rw [herror] at hmodel
    cases hmodel
  intro golden _
  refine Effect.Holds.bind (Q := fun _ _ => True) ?_ (fun _ => ?_)
  · unfold writeExpected
    rw [quiet.expected]
    exact Effect.holds_modify (fun _ _ => trivial) (fun _ _ => trivial)
  apply Effect.holds_get_bind
  intro target _
  apply Effect.holds_ofExcept
  · exact fun _ _ _ _ => trivial
  · intro e _ herror
    unfold scanLeaks at herror
    rw [quiet.leaks] at herror
    cases herror

theorem checked_quiet (quiet : Quiet env entries) {name : String} (hname : isName name = true)
    (haccept : accept py env.checks env.capture = .ok doc)
    (hcomplete : doc.item "status" = .ok (.str "complete")) :
    checked py env (some name) = .ok (doc, name) := by
  have hfilter : (some name).filter (· ≠ "") = some name := by
    rw [Option.filter_some, if_pos (decide_eq_true (ne_empty_of_isName hname))]
  have hsame : (Value.str "complete" : Value F).differs (.str "complete") = false := by
    simp [Value.differs, Value.eq, Value.number?]
  have hchecked : checkComplete py doc = .ok () := by
    unfold checkComplete
    rw [hcomplete, ofExn, Fallible.mapError_ok, Fallible.ok_bind, hsame]
    rfl
  have haccepted : acceptCapture py env = .ok doc := by
    unfold acceptCapture
    rw [haccept]
  unfold checked
  rw [quiet.ready, haccepted, Fallible.ok_bind, Fallible.ok_bind, hchecked, Fallible.ok_bind,
    hfilter]
  dsimp only
  rw [checkName, if_pos hname]
  rfl

/-- An accepted and complete capture is imported when nothing disturbs it. -/
theorem import_quiet (quiet : Quiet env entries) (hcapture : env.capture = some entries)
    {name : String} (hname : isName name = true)
    (haccept : accept py env.checks env.capture = .ok doc)
    (hcomplete : doc.item "status" = .ok (.str "complete")) :
    (importCapture py env (some name) .absent).result = .ok () := by
  obtain ⟨raw, listed, hraw, _, hlisted, hverified⟩ := accept_eq_ok (hcapture ▸ haccept)
  have hundo : forall {m : M Unit} {P : Target -> Prop} {Q : Unit -> Target -> Prop},
      m.Holds P (fun _ => True) Q (fun _ _ => False) ->
      (undoing env m).Holds P (fun _ => True) Q (fun _ _ => False) := by
    intro m P Q hm
    refine hm.handle (fun e => ?_)
    intro _ h
    cases h
  have hcopy : (copyCapture py env name doc).Holds (· = .absent) (fun _ => True)
      (fun _ => IsFolder) (fun _ _ => False) := by
    unfold copyCapture
    rw [quiet.probe, quiet.mkdir]
    apply Effect.holds_ofExcept_bind
    · intro e _ herror
      cases herror
    intro _ _
    apply Effect.holds_get_bind
    intro target htarget
    rw [htarget]
    apply Effect.holds_throwIf_bind
    · intro _ h
      cases h
    intro _
    apply Effect.holds_ofExcept_bind
    · intro e _ herror
      cases herror
    intro _ _
    exact Effect.Holds.bind (Q := fun _ target => target = .folder .empty)
      (Effect.holds_modify (fun _ _ => trivial) (fun _ _ => rfl))
      (fun _ => hundo (holds_fillFolder_quiet quiet hverified hlisted hraw))
  have hrun : (importCapture py env (some name)).Holds (· = .absent) (fun _ => True)
      (fun _ _ => True) (fun _ _ => False) := by
    unfold importCapture
    rw [checked_quiet quiet hname haccept hcomplete]
    apply Effect.holds_ofExcept_bind
    · intro e _ herror
      cases herror
    intro found hfound
    cases hfound
    exact hcopy.bind (fun _ => hundo (holds_addGolden_quiet quiet name))
  have hend := (hrun .absent rfl).2
  cases hresult : (importCapture py env (some name) .absent).result with
  | ok u => rfl
  | error e =>
      rw [hresult] at hend
      cases hend

end Undisturbed

end Importer
end Dev
end Ostia

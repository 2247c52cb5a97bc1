import Ostia.Dev.Manifest

/-!
# Fetching a capture

A capture is fetched manifest first, checked, fetched whole and checked again before it is moved
into place.  The pod answers every request as it likes, and every local operation may fail.
-/

namespace Ostia
namespace Dev
namespace Fetch

open Manifest
open JsonText (FloatText)

/-!
## The pod and the local machine
-/

/-- The requests of a fetch, in their order. -/
inductive Phase where
  | manifest
  | files
  | diagnostics
deriving DecidableEq

/-- What the transport raises; it writes a local file, which may fail as well. -/
inductive ReadError where
  | captureAbsent
  | captureTransportError
  | captureTooLarge
  | captureNotRegular
  | osError

/-- A member of a tar stream; no content when extracting it is an error of the stream. -/
structure Member where
  name : String
  isreg : Bool
  size : Nat
  content : Option Content

/-- The local tar of a request, by its size; without members it is not a valid tar. -/
structure Tar where
  size : Nat
  members : Option (List Member)

/-- The local operations, each of which runs at most once. -/
inductive Op where
  | makeParent
  | makeStaging
  | makeFirst
  | makeFiles
  | makeDest
  | makeDiagnostics
  | stat (phase : Phase)
  | openTar (phase : Phase)
  | write (phase : Phase) (name : String)
  | readFirst
  | readAgain
  | scan
  | open_ (name : String)
  | read (name : String)
  | replaceFiles
  | replaceDiagnostics
deriving DecidableEq

/-- The answers of the pod, those of the second attempt apart, and the local operations that
raise OSError. -/
structure World where
  readTar : Phase -> Bool -> List String -> Nat -> Except ReadError Tar
  fails : Op -> Bool

/-- What stands at a path of the local machine. -/
inductive Dest where
  | absent
  | dir (entries : List (String × Entry))
  /-- Something that is no directory. -/
  | other

/-- The exceptions that pass through a fetch. -/
inductive Raised where
  | captureAbsent
  | captureTransportError
  | captureTooLarge
  | captureNotRegular
  | manifestRejected (reason : String)
  | captureRejected (reason : String)
  | exn (e : Exn)

inductive Outcome (F : Type) where
  | accepted (status : Value F) (missing : List String)
  | rejected (reason fix : String)
  | absent

/-- What a fetch takes from its packages, with the test of reason codes. -/
structure Tools (F : Type) extends Python F where
  reasonCode : String -> Bool

def LIMIT : Nat := 64 * 1024 ^ 2

def DIAGNOSTICS : String := "diagnostics.txt"

def tarBound (limit members : Nat) : Nat := limit + 1024 * members + 1024 + 10240

def transportFix : String := "rerun; the pod or the connection went away during the fetch"

def oversizeFix : String :=
  "only the capture tool may write to /w/capture; remove the stray files the run put there"

def integrityFix : String :=
  "rerun; if it repeats, keep the pod with --keep-on-failure and look at /w/capture"

def localIoFix : String :=
  "check the free space and permissions of the results directory, then rerun"

/-!
## One request
-/

def ReadError.raised : ReadError -> Raised
  | .captureAbsent => .captureAbsent
  | .captureTransportError => .captureTransportError
  | .captureTooLarge => .captureTooLarge
  | .captureNotRegular => .captureNotRegular
  | .osError => .exn .osError

variable (w : World)

/-- An operation that may raise OSError. -/
def attempt (op : Op) : Except Raised Unit :=
  if w.fails op then .error (.exn .osError) else .ok ()

/-- The answer to a request; the transport is tried twice. -/
def answer (phase : Phase) (names : List String) (limit : Nat) : Except ReadError Tar :=
  match w.readTar phase false names limit with
  | .error .captureTransportError => w.readTar phase true names limit
  | r => r

def read (phase : Phase) (names : List String) (limit : Nat) : Except Raised Tar :=
  match answer w phase names limit with
  | .error e => .error e.raised
  | .ok tar => do
      attempt w (.stat phase)
      if tar.size > tarBound limit names.length then .error .captureTooLarge else .ok tar

def rejectIf (c : Bool) (reason : String) : Except Raised Unit :=
  if c then .error (.captureRejected reason) else .ok ()

def notValid : Raised := .captureRejected "the tar stream is not a valid tar"

def checkRegular : List Member -> Except Raised Unit
  | [] => .ok ()
  | m :: rest =>
      if m.isreg then checkRegular rest
      else .error (.captureRejected (m.name ++ " is not a regular file in the tar stream"))

def checkPresent (seen : List String) : List String -> Except Raised Unit
  | [] => .ok ()
  | name :: rest =>
      if seen.contains name then checkPresent seen rest
      else .error (.captureRejected (name ++ " is missing from the tar stream"))

/-- Regular members are written under their names. -/
def extractAll (phase : Phase) : List Member -> Except Raised (List (String × Content))
  | [] => .ok []
  | m :: rest => do
      attempt w (.write phase m.name)
      match m.content with
      | none => .error notValid
      | some bytes => do
          let later ← extractAll phase rest
          pure ((m.name, bytes) :: later)

def extract (phase : Phase) (tar : Tar) (names : List String) (limit : Nat) :
    Except Raised (List (String × Content)) := do
  attempt w (.openTar phase)
  match tar.members with
  | none => .error notValid
  | some members => do
      let seen := members.map Member.name
      rejectIf (!decide seen.Nodup) "the tar stream repeats a member"
      let outside := (seen.filter fun name => !names.contains name).length
      rejectIf (decide (outside ≠ 0))
        ("the tar stream holds " ++ toString outside ++ " unrequested members")
      checkRegular members
      if (members.map Member.size).sum > limit then .error .captureTooLarge
      else do
        checkPresent seen names
        extractAll w phase members

/-- A request and its files. -/
def request (phase : Phase) (names : List String) (limit : Nat) :
    Except Raised (List (String × Content)) := do
  let tar ← read w phase names limit
  extract w phase tar names limit

/-- The content of a file among those that were written. -/
def contentOf (name : String) (files : List (String × Content)) : Except Raised Content :=
  match files.find? fun e => e.1 == name with
  | none => .error (.exn .osError)
  | some e => .ok e.2

/-!
## The capture
-/

variable {F : Type} [FloatText F] (tools : Tools F)

/-- The manifest of the first request, and the exceptions of its check by their class. -/
def firstManifest (raw : Content) : Except Raised (Value F) :=
  match checkManifest tools.toPython raw with
  | .ok doc => .ok doc
  | .error (.rejected reason) => .error (.manifestRejected reason)
  | .error .infra =>
      .error (.captureRejected "manifest.json could not be checked (jsonschema missing)")
  | .error (.exn e) => .error (.exn e)

/-- The names of the files that a manifest lists, sorted. -/
def listedNames (doc : Value F) : Except Raised (List String) :=
  match doc.item "files" with
  | .ok (.dict listed) => .ok ((sortedFields listed).map Prod.fst)
  | .ok _ => .error (.exn .typeError)
  | .error e => .error (.exn e)

def gone : Raised -> Raised
  | .captureAbsent => .captureRejected "manifest.json disappeared during the fetch"
  | e => e

def verify (files : List (String × Content)) (doc : Value F) : Except Raised Unit :=
  let faults : Faults := ⟨w.fails .scan, fun n => w.fails (.open_ n), fun n => w.fails (.read n)⟩
  match verifyDir tools.toPython faults (files.map fun e => (e.1, .file e.2)) doc with
  | .ok u => .ok u
  | .error (.rejected reason) => .error (.captureRejected reason)
  | .error .infra => .error (.exn (.other "InfraError"))
  | .error (.exn e) => .error (.exn e)

/-- The files of the capture, once every check has passed. -/
def accept : Except Raised (Value F × List (String × Content)) := do
  attempt w .makeFirst
  let first ← request w .manifest ["manifest.json"] MAX_MANIFEST_BYTES
  attempt w .readFirst
  let raw ← contentOf "manifest.json" first
  let doc ← firstManifest tools raw
  let listed ← listedNames doc
  attempt w .makeFiles
  let files ← (request w .files ("manifest.json" :: listed) LIMIT).mapError gone
  attempt w .readAgain
  let again ← contentOf "manifest.json" files
  rejectIf (decide (again ≠ raw)) "manifest.json changed during the fetch"
  verify w tools files doc
  pure (doc, files)

/-- Whether an exception of a second request is caught. -/
def Raised.caught : Raised -> Bool
  | .exn e => e == .osError
  | _ => true

/-- A file that is moved into a directory. -/
def put (entries : List (String × Entry)) (name : String) (bytes : Content) :
    List (String × Entry) :=
  entries.filter (fun e => e.1 != name) ++ [(name, .file bytes)]

/-- The diagnostics of the pod, if they can be had.  The directory for them is made in dest,
outside of what is caught. -/
def diagnostics (dest : Dest) : Except Raised Dest :=
  match dest with
  | .dir entries =>
      if w.fails .makeDiagnostics then .error (.exn .osError)
      else
        let moved := do
          let got ← request w .diagnostics [DIAGNOSTICS] LIMIT
          attempt w .replaceDiagnostics
          contentOf DIAGNOSTICS got
        match moved with
        | .ok bytes => .ok (.dir (put entries DIAGNOSTICS bytes))
        | .error e => if e.caught then .ok (.dir entries) else .error e
  | _ => .error (.exn .osError)

def reason (v : Value F) : String :=
  match v with
  | .str s => if tools.reasonCode s then s else "non-code reason"
  | _ => "non-code reason"

/-- The files of the contract that the manifest gives up, with their reasons. -/
def missing (doc : Value F) : List String :=
  match doc.get "missing" with
  | .ok (some (.list items)) => items.filterMap fun m =>
      match m.get "file" with
      | .ok (some (.str file)) =>
          if FILES.contains file then
            let why := match m.get "reason" with
              | .ok (some v) => reason tools v
              | _ => "non-code reason"
            some (file ++ " missing (" ++ why ++ ")")
          else none
      | _ => none
  | _ => []

/-- How a capture is rejected, by the exception; other exceptions pass. -/
def rejection : Raised -> Except Raised (Outcome F)
  | .captureAbsent => .ok .absent
  | .captureTransportError => .ok (.rejected "the fetch failed twice (kubectl or tar)" transportFix)
  | .captureTooLarge => .ok (.rejected "the capture is larger than 64 MiB" oversizeFix)
  | .captureNotRegular =>
      .ok (.rejected ("not_regular: a requested file in /w/capture is missing, a symlink or " ++
        "not a regular file") integrityFix)
  | .manifestRejected reason => .ok (.rejected reason "see docs/guides/fixtures.md#leak-check")
  | .captureRejected reason => .ok (.rejected reason integrityFix)
  | .exn e => .error (.exn e)

/-- A directory takes the place of nothing, or of an empty directory. -/
def replaceable : Dest -> Bool
  | .absent => true
  | .dir [] => true
  | _ => false

/-- The directory at a path, made if there is nothing. -/
def makeDir : Dest -> Option Dest
  | .absent => some (.dir [])
  | .dir entries => some (.dir entries)
  | .other => none

/-- What follows when the capture was accepted. -/
def keepFiles (doc : Value F) (files : List (String × Content)) (dest : Dest) :
    Except Raised (Outcome F) × Dest :=
  if w.fails .replaceFiles || !replaceable dest then (.error (.exn .osError), dest)
  else
    let moved := Dest.dir (files.map fun e => (e.1, .file e.2))
    match diagnostics w moved with
    | .error e => (.error e, moved)
    | .ok dest =>
        match doc.item "status" with
        | .error e => (.error (.exn e), dest)
        | .ok status => (.ok (.accepted status (missing tools doc)), dest)

/-- What follows when it was rejected. -/
def keepDiagnostics (outcome : Outcome F) (dest : Dest) : Except Raised (Outcome F) × Dest :=
  if w.fails .makeDest then (.error (.exn .osError), dest)
  else
    match makeDir dest with
    | none => (.error (.exn .osError), dest)
    | some made =>
        match diagnostics w made with
        | .error e => (.error e, made)
        | .ok dest => (.ok outcome, dest)

/-- A fetch before its OSErrors are caught; the staging directory is removed at its end. -/
def fetchInner (dest : Dest) : Except Raised (Outcome F) × Dest :=
  if w.fails .makeParent || w.fails .makeStaging then (.error (.exn .osError), dest)
  else
    match accept w tools with
    | .ok (doc, files) => keepFiles w tools doc files dest
    | .error e =>
        match rejection e with
        | .error e => (.error e, dest)
        | .ok .absent => (.ok .absent, dest)
        | .ok outcome => keepDiagnostics w outcome dest

/-- Fetch the capture of one pod into dest: what is returned or raised, and what stands there. -/
def fetch (dest : Dest) : Except Raised (Outcome F) × Dest :=
  match fetchInner w tools dest with
  | (.error (.exn .osError), dest) =>
      (.ok (.rejected "local_io: the capture could not be written on this machine" localIoFix),
        dest)
  | r => r

/-!
## What a request brings
-/

section Request

variable {w} {phase : Phase} {names : List String} {limit : Nat}

theorem rejectIf_eq_ok {c : Bool} {reason : String} {u : Unit} (h : rejectIf c reason = .ok u) :
    c = false := by
  cases c with
  | false => rfl
  | true => cases h

theorem checkPresent_eq_ok {seen : List String} {u : Unit}
    (h : checkPresent seen names = .ok u) : forall name, name ∈ names -> name ∈ seen := by
  induction names with
  | nil =>
      intro name hname
      cases hname
  | cons head rest ih =>
      rw [checkPresent] at h
      split_ifs at h with hhead
      rw [List.forall_mem_cons]
      exact ⟨List.contains_iff_mem.mp hhead, ih h⟩

theorem extractAll_eq_ok {members : List Member} {got : List (String × Content)}
    (h : extractAll w phase members = .ok got) :
    got.map Prod.fst = members.map Member.name ∧
      forall e, e ∈ got -> exists m, m ∈ members ∧ m.name = e.1 ∧ m.content = some e.2 := by
  induction members generalizing got with
  | nil =>
      cases h
      exact ⟨rfl, fun e he => (List.not_mem_nil he).elim⟩
  | cons m rest ih =>
      rw [extractAll, Foundation.Fallible.bind_eq_ok] at h
      obtain ⟨_, _, h⟩ := h
      cases hcontent : m.content with
      | none =>
          rw [hcontent] at h
          cases h
      | some bytes =>
          rw [hcontent] at h
          simp only [Foundation.Fallible.bind_eq_ok] at h
          obtain ⟨later, hlater, hgot⟩ := h
          cases hgot
          obtain ⟨hnames, hmembers⟩ := ih hlater
          constructor
          · rw [List.map_cons, List.map_cons, hnames]
          · rw [List.forall_mem_cons]
            constructor
            · exact ⟨m, List.mem_cons_self, rfl, hcontent⟩
            · intro e he
              obtain ⟨m', hm', hspec⟩ := hmembers e he
              exact ⟨m', List.mem_cons_of_mem _ hm', hspec⟩

/-- What a request brings: the files of its names, each once, as members of the tar that the pod
answered with. -/
structure Brought (w : World) (phase : Phase) (names : List String) (limit : Nat)
    (got : List (String × Content)) : Prop where
  nodup : (got.map Prod.fst).Nodup
  named : forall name, name ∈ got.map Prod.fst <-> name ∈ names
  answered : exists tar members, answer w phase names limit = .ok tar ∧
    tar.members = some members ∧
    forall e, e ∈ got -> exists m, m ∈ members ∧ m.name = e.1 ∧ m.content = some e.2

theorem request_brought {got : List (String × Content)}
    (h : request w phase names limit = .ok got) : Brought w phase names limit got := by
  rw [request, Foundation.Fallible.bind_eq_ok] at h
  obtain ⟨tar, hread, h⟩ := h
  have hanswer : answer w phase names limit = .ok tar := by
    unfold read at hread
    cases hanswer : answer w phase names limit with
    | error e =>
        rw [hanswer] at hread
        cases hread
    | ok tar' =>
        rw [hanswer] at hread
        simp only [Foundation.Fallible.bind_eq_ok] at hread
        obtain ⟨_, _, hread⟩ := hread
        split_ifs at hread
        cases hread
        rfl
  rw [extract, Foundation.Fallible.bind_eq_ok] at h
  obtain ⟨_, _, h⟩ := h
  cases hmembers : tar.members with
  | none =>
      rw [hmembers] at h
      cases h
  | some members =>
      rw [hmembers] at h
      simp only [Foundation.Fallible.bind_eq_ok] at h
      obtain ⟨_, hnodup, _, hinside, _, _, h⟩ := h
      split_ifs at h
      rw [Foundation.Fallible.bind_eq_ok] at h
      obtain ⟨_, hpresent, h⟩ := h
      obtain ⟨hgot, hcontents⟩ := extractAll_eq_ok h
      have hmem := checkPresent_eq_ok hpresent
      constructor
      · rw [hgot]
        simpa using rejectIf_eq_ok hnodup
      · intro name
        rw [hgot]
        constructor
        · intro hname
          have hall := rejectIf_eq_ok hinside
          rw [decide_eq_false_iff_not, not_not, List.length_eq_zero_iff, List.filter_eq_nil_iff]
            at hall
          simpa using hall name hname
        · exact hmem name
      · exact ⟨tar, members, hanswer, hmembers, hcontents⟩

end Request

/-!
## What is accepted
-/

section Accepted

variable {w} {tools}

theorem contentOf_eq_ok {name : String} {files : List (String × Content)} {bytes : Content}
    (h : contentOf name files = .ok bytes) : (name, bytes) ∈ files := by
  unfold contentOf at h
  cases hfind : files.find? fun e => e.1 == name with
  | none =>
      rw [hfind] at h
      cases h
  | some e =>
      rw [hfind] at h
      cases h
      have hname : e.1 = name := by simpa using List.find?_some hfind
      rw [<- hname]
      exact List.mem_of_find?_eq_some hfind

def asEntries (files : List (String × Content)) : List (String × Entry) :=
  files.map fun e => (e.1, .file e.2)

/-- The files of a fetch that passed every check: the manifest of the first request and what it
lists, each file with its hash. -/
structure Checked (w : World) (tools : Tools F) (raw : Content) (doc : Value F)
    (listed : List (String × Value F)) (files : List (String × Content)) : Prop where
  first : exists got, Brought w .manifest ["manifest.json"] MAX_MANIFEST_BYTES got ∧
    ("manifest.json", raw) ∈ got
  accepted : checkManifest tools.toPython raw = .ok doc
  lists : doc.item "files" = .ok (.dict listed)
  nodup : (files.map Prod.fst).Nodup
  named : forall name, name ∈ files.map Prod.fst <->
    name = "manifest.json" ∨ name ∈ listed.map Prod.fst
  same : ("manifest.json", raw) ∈ files
  verified : Verified tools.toPython (asEntries files) listed

theorem firstManifest_eq_ok {raw : Content} {doc : Value F}
    (h : firstManifest tools raw = .ok doc) :
    checkManifest tools.toPython raw = .ok doc := by
  unfold firstManifest at h
  split at h
  · cases h
    assumption
  · cases h
  · cases h
  · cases h

omit [FloatText F] in
theorem listedNames_eq_ok {doc : Value F} {names : List String}
    (h : listedNames doc = .ok names) :
    exists listed, doc.item "files" = .ok (.dict listed) ∧
      forall name, name ∈ names <-> name ∈ listed.map Prod.fst := by
  unfold listedNames at h
  split at h
  · rename_i listed hitem
    cases h
    refine ⟨listed, hitem, ?_⟩
    intro name
    unfold sortedFields
    rw [List.mem_map, List.mem_map]
    simp only [(Foundation.Sorting.stableSort_perm Prod.fst listed).mem_iff]
  · cases h
  · cases h

theorem mapError_eq_ok {A : Type} {f : Raised -> Raised} {r : Except Raised A} {a : A}
    (h : r.mapError f = .ok a) : r = .ok a := by
  cases r with
  | ok b =>
      cases h
      rfl
  | error e => cases h

theorem verify_eq_ok {files : List (String × Content)} {doc : Value F} {u : Unit}
    (h : verify w tools files doc = .ok u) :
    exists faults, verifyDir tools.toPython faults (asEntries files) doc = .ok u := by
  unfold verify at h
  simp only at h
  split at h
  · cases h
    exact ⟨_, by assumption⟩
  · cases h
  · cases h
  · cases h

theorem accept_checked {doc : Value F} {files : List (String × Content)}
    (h : accept w tools = .ok (doc, files)) :
    exists raw listed, Checked w tools raw doc listed files := by
  simp only [accept, Foundation.Fallible.bind_eq_ok] at h
  obtain ⟨_, _, got, hgot, _, _, raw, hraw, doc', hdoc, names, hnames, _, _, files', hfiles, _, _,
    again, hagain, _, hsame, _, hverify, hresult⟩ := h
  cases hresult
  have hbrought := request_brought (mapError_eq_ok hfiles)
  obtain ⟨listed, hlisted, hmem⟩ := listedNames_eq_ok hnames
  obtain ⟨faults, hverified⟩ := verify_eq_ok hverify
  have heq : again = raw := by simpa using rejectIf_eq_ok hsame
  subst heq
  exists again, listed
  constructor
  · exact ⟨got, request_brought hgot, contentOf_eq_ok hraw⟩
  · exact firstManifest_eq_ok hdoc
  · exact hlisted
  · exact hbrought.nodup
  · intro name
    rw [hbrought.named, List.mem_cons, hmem]
  · exact contentOf_eq_ok hagain
  · exact verifyDir_verified hlisted hverified

/-- The diagnostics add one file at most. -/
theorem diagnostics_eq_ok {entries : List (String × Entry)} {dest : Dest}
    (h : diagnostics w (.dir entries) = .ok dest) :
    dest = .dir entries ∨ exists bytes, dest = .dir (put entries DIAGNOSTICS bytes) := by
  unfold diagnostics at h
  simp only at h
  split_ifs at h
  split at h
  · cases h
    exact Or.inr ⟨_, rfl⟩
  · split_ifs at h
    cases h
    exact Or.inl rfl

omit [FloatText F] in
theorem not_accepted_of_rejection {e : Raised} {status : Value F} {gaps : List String}
    (h : rejection e = .ok (.accepted status gaps)) : False := by
  cases e with
  | captureAbsent => cases h
  | captureTransportError => cases h
  | captureTooLarge => cases h
  | captureNotRegular => cases h
  | manifestRejected reason => cases h
  | captureRejected reason => cases h
  | exn e => cases h

/-- An accepted fetch moved the files that passed every check. -/
theorem fetch_eq_accepted {dest dest' : Dest} {status : Value F} {gaps : List String}
    (h : fetch w tools dest = (.ok (.accepted status gaps), dest')) :
    exists doc files, accept w tools = .ok (doc, files) ∧
      diagnostics w (.dir (asEntries files)) = .ok dest' ∧ doc.item "status" = .ok status := by
  have hinner : fetchInner w tools dest = (.ok (.accepted status gaps), dest') := by
    unfold fetch at h
    split at h
    · cases h
    · exact h
  unfold fetchInner at hinner
  split_ifs at hinner
  · cases hinner
  · split at hinner
    · rename_i doc files haccept
      unfold keepFiles at hinner
      split_ifs at hinner
      · cases hinner
      · simp only at hinner
        split at hinner
        · cases hinner
        · rename_i moved hmoved
          split at hinner
          · cases hinner
          · rename_i status' hstatus
            cases hinner
            exact ⟨doc, files, haccept, hmoved, hstatus⟩
    · split at hinner
      · cases hinner
      · cases hinner
      · rename_i e _ outcome _ hrejection
        unfold keepDiagnostics at hinner
        split_ifs at hinner
        · cases hinner
        · split at hinner
          · cases hinner
          · split at hinner
            · cases hinner
            · cases hinner
              exact (not_accepted_of_rejection hrejection).elim

end Accepted

/-!
## What stands at dest
-/

/-- A directory that holds a manifest, the files that it lists and at most diagnostics, all of
them regular files. -/
structure Delivered (tools : Tools F) (raw : Content) (listed : List (String × Value F))
    (entries : List (String × Entry)) : Prop where
  nodup : (entries.map Prod.fst).Nodup
  named : forall name, name ∈ entries.map Prod.fst ->
    name = "manifest.json" ∨ name ∈ listed.map Prod.fst ∨ name = DIAGNOSTICS
  manifest : ("manifest.json", .file raw) ∈ entries
  hashed : forall e, e ∈ listed -> exists bytes, (e.1, .file bytes) ∈ entries ∧
    e.2 = digestOf tools.toPython bytes
  regular : forall e, e ∈ entries -> exists bytes, e.2 = .file bytes

section Delivered

variable {w} {tools}

theorem keys_asEntries (files : List (String × Content)) :
    (asEntries files).map Prod.fst = files.map Prod.fst := by
  unfold asEntries
  rw [List.map_map]
  rfl

theorem Checked.delivered {raw : Content} {doc : Value F} {listed : List (String × Value F)}
    {files : List (String × Content)} (h : Checked w tools raw doc listed files) :
    Delivered tools raw listed (asEntries files) := by
  constructor
  · rw [keys_asEntries]
    exact h.nodup
  · intro name hname
    rw [keys_asEntries, h.named] at hname
    exact hname.imp_right Or.inl
  · exact List.mem_map_of_mem (f := fun e => (e.1, Entry.file e.2)) h.same
  · exact h.verified.hashed
  · exact h.verified.regular

omit [FloatText F] in
/-- Diagnostics that are put beside the files change none of them. -/
theorem Delivered.put {raw : Content} {listed : List (String × Value F)}
    {entries : List (String × Entry)} (h : Delivered tools raw listed entries)
    (hlisted : forall e, e ∈ listed -> e.1 ∈ FILES) (bytes : Content) :
    Delivered tools raw listed (put entries DIAGNOSTICS bytes) := by
  have hmem : forall {name : String} {entry : Entry}, (name, entry) ∈ entries ->
      name ≠ DIAGNOSTICS -> (name, entry) ∈ Fetch.put entries DIAGNOSTICS bytes := by
    intro name entry he hne
    apply List.mem_append_left
    rw [List.mem_filter]
    exact ⟨he, bne_iff_ne.mpr hne⟩
  have hcases : forall {e : String × Entry}, e ∈ Fetch.put entries DIAGNOSTICS bytes ->
      e ∈ entries ∨ e = (DIAGNOSTICS, .file bytes) := by
    intro e he
    cases List.mem_append.mp he with
    | inl he => exact Or.inl (List.mem_filter.mp he).1
    | inr he => exact Or.inr (List.mem_singleton.mp he)
  constructor
  · unfold Fetch.put
    rw [List.map_append, List.nodup_append]
    refine ⟨h.nodup.sublist (List.filter_sublist.map _), List.nodup_singleton _, ?_⟩
    intro name hname name' hname' heq
    rw [List.mem_singleton.mp hname'] at heq
    obtain ⟨e, he, rfl⟩ := List.mem_map.mp hname
    have hne := (List.mem_filter.mp he).2
    rw [heq] at hne
    exact bne_iff_ne.mp hne rfl
  · intro name hname
    obtain ⟨e, he, rfl⟩ := List.mem_map.mp hname
    cases hcases he with
    | inl he => exact h.named _ (List.mem_map_of_mem he)
    | inr he =>
        rw [he]
        exact Or.inr (Or.inr rfl)
  · exact hmem h.manifest (by decide)
  · intro e he
    obtain ⟨content, hcontent, hdigest⟩ := h.hashed e he
    refine ⟨content, hmem hcontent ?_, hdigest⟩
    have hfiles : forall name, name ∈ FILES -> name ≠ DIAGNOSTICS := by decide
    exact hfiles _ (hlisted e he)
  · intro e he
    cases hcases he with
    | inl he => exact h.regular e he
    | inr he =>
        rw [he]
        exact ⟨bytes, rfl⟩

/-- An accepted fetch leaves the files of a manifest that may be used, as the pod first sent it. -/
theorem fetch_accepted {search : String -> String -> Bool} (hpy : Validates tools.toPython search)
    {dest dest' : Dest} {status : Value F} {gaps : List String}
    (h : fetch w tools dest = (.ok (.accepted status gaps), dest')) :
    exists raw doc listed entries,
      (exists got, Brought w .manifest ["manifest.json"] MAX_MANIFEST_BYTES got ∧
        ("manifest.json", raw) ∈ got) ∧
      checkManifest tools.toPython raw = .ok doc ∧ Usable doc listed ∧ dest' = .dir entries ∧
      Delivered tools raw listed entries := by
  obtain ⟨doc, files, haccept, hdiagnostics, _⟩ := fetch_eq_accepted h
  obtain ⟨raw, listed, hchecked⟩ := accept_checked haccept
  obtain ⟨_, listed', husable⟩ := checkManifest_usable hpy hchecked.accepted
  have heq : listed' = listed := by
    have hfiles := husable.files
    rw [hchecked.lists] at hfiles
    cases hfiles
    rfl
  subst heq
  cases diagnostics_eq_ok hdiagnostics with
  | inl hdest =>
      exact ⟨raw, doc, listed', asEntries files, hchecked.first, hchecked.accepted, husable, hdest,
        hchecked.delivered⟩
  | inr hdest =>
      obtain ⟨bytes, hdest⟩ := hdest
      exact ⟨raw, doc, listed', _, hchecked.first, hchecked.accepted, husable, hdest,
        hchecked.delivered.put husable.known bytes⟩

end Delivered

/-!
## What a fetch leaves that is not accepted
-/

def Outcome.isAccepted : Outcome F -> Bool
  | .accepted _ _ => true
  | _ => false

/-- Nothing, or a directory with at most the diagnostics. -/
def OnlyDiagnostics : Dest -> Prop
  | .absent => True
  | .dir entries => entries = [] ∨ exists bytes, entries = [(DIAGNOSTICS, .file bytes)]
  | .other => False

/-- A capture that is not accepted leaves only diagnostics in a dest that did not exist. -/
def LeavesOnlyDiagnostics (w : World) (tools : Tools F) : Prop :=
  forall outcome dest, fetch w tools .absent = (.ok outcome, dest) -> outcome.isAccepted = false ->
    OnlyDiagnostics dest

/-- Every check passed and the files were moved to dest, where no directory could then be made for
the diagnostics. -/
structure Stranded (w : World) (tools : Tools F) : Prop where
  parent : w.fails .makeParent = false
  staging : w.fails .makeStaging = false
  accepted : exists doc files, accept w tools = .ok (doc, files)
  replaced : w.fails .replaceFiles = false
  failed : w.fails .makeDiagnostics = true

section Rejected

variable {w} {tools}

def localIo : Outcome F :=
  .rejected "local_io: the capture could not be written on this machine" localIoFix

theorem fetch_kept {dest dest' : Dest} {outcome : Outcome F} {doc : Value F}
    {files : List (String × Content)} (hparent : w.fails .makeParent = false)
    (hstaging : w.fails .makeStaging = false) (haccept : accept w tools = .ok (doc, files))
    (hkeep : keepFiles w tools doc files dest = (.ok outcome, dest')) :
    fetch w tools dest = (.ok outcome, dest') := by
  have hinner : fetchInner w tools dest = (.ok outcome, dest') := by
    unfold fetchInner
    simp only [hparent, hstaging, haccept, hkeep, Bool.or_self, Bool.false_eq_true, if_false]
  rw [fetch, hinner]

/-- The files stay where they were moved when the diagnostics fail. -/
theorem fetch_stranded (hparent : w.fails .makeParent = false)
    (hstaging : w.fails .makeStaging = false) (hreplace : w.fails .replaceFiles = false)
    (hfailed : w.fails .makeDiagnostics = true) {doc : Value F} {files : List (String × Content)}
    (haccept : accept w tools = .ok (doc, files)) :
    fetch w tools .absent = (.ok localIo, .dir (asEntries files)) := by
  have hdiagnostics : diagnostics w (.dir (asEntries files)) = .error (.exn .osError) := by
    rw [diagnostics, if_pos hfailed]
  have hkeep : keepFiles w tools doc files .absent =
      (.error (.exn .osError), .dir (asEntries files)) := by
    unfold asEntries at hdiagnostics ⊢
    simp only [keepFiles, hreplace, replaceable, Bool.not_true, Bool.or_self, Bool.false_eq_true,
      if_false, hdiagnostics]
  unfold fetch fetchInner
  simp only [hparent, hstaging, haccept, hkeep, Bool.or_self, Bool.false_eq_true, if_false]
  rfl

theorem onlyDiagnostics_of_diagnostics {dest : Dest} (h : diagnostics w (.dir []) = .ok dest) :
    OnlyDiagnostics dest := by
  cases diagnostics_eq_ok h with
  | inl hdest =>
      rw [hdest]
      exact Or.inl rfl
  | inr hdest =>
      obtain ⟨bytes, hdest⟩ := hdest
      rw [hdest]
      exact Or.inr ⟨bytes, rfl⟩

omit [FloatText F] in
theorem keepDiagnostics_only {outcome : Outcome F} :
    OnlyDiagnostics (keepDiagnostics w outcome .absent).2 := by
  unfold keepDiagnostics
  split_ifs
  · trivial
  · simp only [makeDir]
    cases hmoved : diagnostics w (.dir []) with
    | error e => exact Or.inl rfl
    | ok dest => exact onlyDiagnostics_of_diagnostics hmoved

/-- What stands at dest after a fetch is left by its inner part. -/
theorem fetch_dest (dest : Dest) : (fetch w tools dest).2 = (fetchInner w tools dest).2 := by
  unfold fetch
  split
  · rename_i h
    rw [h]
  · rfl

/-- The diagnostics raise OSError only before anything of theirs is caught. -/
theorem makeDiagnostics_of_diagnostics {entries : List (String × Entry)}
    (h : diagnostics w (.dir entries) = .error (.exn .osError)) :
    w.fails .makeDiagnostics = true := by
  unfold diagnostics at h
  simp only at h
  split_ifs at h with hfails
  · exact hfails
  · split at h
    · cases h
    · split_ifs at h with hcaught
      cases h
      exact (hcaught rfl).elim

omit [FloatText F] in
theorem item_ne_osError (v : Value F) (key : String) : v.item key ≠ .error .osError := by
  intro h
  unfold Value.item at h
  split at h
  · split at h
    · cases h
    · cases h
  · cases h

omit [FloatText F] in
/-- Files that are moved while OSError passes stay without their diagnostics. -/
theorem keepFiles_osError {doc : Value F} {files : List (String × Content)}
    (h : (keepFiles w tools doc files .absent).1 = .error (.exn .osError)) :
    (keepFiles w tools doc files .absent).2 = .absent ∨
      (w.fails .replaceFiles = false ∧ w.fails .makeDiagnostics = true) := by
  unfold keepFiles at h ⊢
  split_ifs at h ⊢ with hreplace
  · exact Or.inl rfl
  · simp only at h
    cases hmoved : diagnostics w (.dir (files.map fun e => (e.1, .file e.2))) with
    | error e =>
        rw [hmoved] at h
        cases h
        rw [Bool.or_eq_true, not_or, Bool.not_eq_true] at hreplace
        exact Or.inr ⟨hreplace.1, makeDiagnostics_of_diagnostics hmoved⟩
    | ok dest =>
        rw [hmoved] at h
        simp only at h
        cases hstatus : doc.item "status" with
        | ok status =>
            rw [hstatus] at h
            cases h
        | error e =>
            rw [hstatus] at h
            cases h
            exact (item_ne_osError doc "status" hstatus).elim

omit [FloatText F] in
theorem keepFiles_accepted {doc : Value F} {files : List (String × Content)} {dest : Dest}
    {outcome : Outcome F} (h : (keepFiles w tools doc files dest).1 = .ok outcome) :
    outcome.isAccepted = true := by
  unfold keepFiles at h
  split_ifs at h
  simp only at h
  split at h
  · cases h
  · split at h
    · cases h
    · cases h
      rfl

/-- A fetch that returns without a capture leaves its files only when they are stranded. -/
theorem onlyDiagnostics_of_not_stranded (hnot : ¬ Stranded w tools) :
    LeavesOnlyDiagnostics w tools := by
  intro outcome dest h hrejected
  have hdest : (fetchInner w tools .absent).2 = dest := by rw [<- fetch_dest, h]
  rw [<- hdest]
  have hresult : (fetchInner w tools .absent).1 = .error (.exn .osError) ∨
      (fetchInner w tools .absent).1 = .ok outcome := by
    unfold fetch at h
    split at h
    · rename_i hinner
      rw [hinner]
      exact Or.inl rfl
    · rw [h]
      exact Or.inr rfl
  unfold fetchInner at hresult ⊢
  split_ifs at hresult ⊢ with hbegin
  · trivial
  · rw [Bool.or_eq_true, not_or, Bool.not_eq_true, Bool.not_eq_true] at hbegin
    cases haccept : accept w tools with
    | ok kept =>
        obtain ⟨doc, files⟩ := kept
        rw [haccept] at hresult
        cases hresult with
        | inl hraised =>
            cases keepFiles_osError hraised with
            | inl habsent =>
                show OnlyDiagnostics (keepFiles w tools doc files .absent).2
                rw [habsent]
                trivial
            | inr hfailed =>
                exact (hnot ⟨hbegin.1, hbegin.2, ⟨doc, files, haccept⟩, hfailed.1, hfailed.2⟩).elim
        | inr hreturned =>
            rw [keepFiles_accepted hreturned] at hrejected
            cases hrejected
    | error e =>
        simp only
        cases hrejection : rejection (F := F) e with
        | error e => trivial
        | ok outcome =>
            cases outcome with
            | absent => trivial
            | accepted status gaps => exact keepDiagnostics_only
            | rejected reason fix => exact keepDiagnostics_only

/-- Only files that are stranded stay without an accepted capture. -/
theorem leavesOnlyDiagnostics_iff : LeavesOnlyDiagnostics w tools <-> ¬ Stranded w tools := by
  constructor
  · intro h hstranded
    obtain ⟨doc, files, haccept⟩ := hstranded.accepted
    have hfetch := fetch_stranded hstranded.parent hstranded.staging hstranded.replaced
      hstranded.failed haccept
    obtain ⟨raw, listed, hchecked⟩ := accept_checked haccept
    have hmanifest := hchecked.delivered.manifest
    cases h _ _ hfetch rfl with
    | inl hnil =>
        rw [hnil] at hmanifest
        cases hmanifest
    | inr hone =>
        obtain ⟨bytes, hone⟩ := hone
        rw [hone, List.mem_singleton] at hmanifest
        exact absurd (Prod.mk.inj hmanifest).1 (by decide)
  · exact onlyDiagnostics_of_not_stranded

end Rejected

/-!
## A small capture
-/

/-- The files of a capture, with their hashes. -/
def smallFiles : List (String × String × String) :=
  [("hwloc.xml", "<topology/>",
      "e94dcd5e93f1dfdde271c802af7837ea984c4aee6afb0db74b4cb0ba790a2aec"),
    ("nics.json", "\x7b\x7d",
      "44136fa355b3678a1146ad16f7e8649e94fb4fc21fe77e8310c060f61caaff8a"),
    ("meta.json", "[]",
      "4f53cda18c2baa0c0354bb5f9a3ecbe5ed12ab4d8e11ba873c2f11161202b945")]

def smallDoc : Value JsonText.Half :=
  .dict
    [("schema", .int 1), ("tool_version", .str "1"), ("status", .str "complete"),
      ("sanitized", .bool true), ("leak_check", .str "passed"),
      ("topology_id", .str
        "topo1:sha256:e94dcd5e93f1dfdde271c802af7837ea984c4aee6afb0db74b4cb0ba790a2aec"),
      ("files", .dict (smallFiles.map fun f => (f.1, .str ("sha256:" ++ f.2.2)))),
      ("missing", .list []), ("errors", .list [])]

def smallManifest : Content := .utf8 (JsonText.dumps smallDoc)

def isLowerHex (c : Char) : Bool := c.isDigit || ('a' ≤ c && c ≤ 'f')

/-- The two patterns of the schema: a prefix and 64 digits. -/
def searchPattern (pattern text : String) : Bool :=
  let start := if pattern = hashPattern then "sha256:".toList else "topo1:sha256:".toList
  start.isPrefixOf text.toList && text.toList.length == start.length + 64 &&
    (text.toList.drop start.length).all isLowerHex

def smallTools : Tools JsonText.Half where
  violations doc := some (if Draft.valid searchPattern schema doc then [] else [("$", "type")])
  str _ := "1"
  tooDeep _ := false
  sha256 bytes :=
    match smallFiles.find? fun f => Content.utf8 f.2.1 = bytes with
    | some f => f.2.2
    | none => "e3b0c44298fc1c149afbf4c8996fb92427ae41e4649b934ca495991b7852b855"
  reasonCode s := s.toList.all fun c => c.isAlphanum || c == '_'

/-- A pod that sends the small capture, and no diagnostics. -/
def smallTar : Phase -> Except ReadError Tar
  | .manifest => .ok ⟨10240, some [⟨"manifest.json", true, 700, some smallManifest⟩]⟩
  | .files => .ok ⟨10240, some (⟨"manifest.json", true, 700, some smallManifest⟩ ::
      smallFiles.map fun f => ⟨f.1, true, 11, some (.utf8 f.2.1)⟩)⟩
  | .diagnostics => .error .captureNotRegular

/-- The disk may be full when the directory for the diagnostics is made. -/
def smallWorld (full : Bool) : World :=
  ⟨fun phase _ _ _ => smallTar phase, fun op => op == .makeDiagnostics && full⟩

def smallGot : List (String × Content) :=
  ("manifest.json", smallManifest) :: smallFiles.map fun f => (f.1, .utf8 f.2.1)

theorem smallTools_validates : Validates smallTools.toPython searchPattern := by
  intro doc found h
  have hfound := (Option.some.inj h).symm
  rw [hfound]
  constructor
  · intro hnil
    split_ifs at hnil with hvalid
    exact hvalid
  · intro hvalid
    rw [if_pos hvalid]

theorem parse_of_value {py : Manifest.Python F} {v w : Value F}
    (hdeep : py.tooDeep (JsonText.dumps v) = false)
    (h : value (2 * (JsonText.text v).length + 2) (JsonText.skip (JsonText.text v)) =
      .ok (w, [])) : parse py (.utf8 (JsonText.dumps v)) = .ok w := by
  unfold parse
  dsimp only
  rw [hdeep, if_neg Bool.false_ne_true]
  unfold JsonText.dumps
  simp only [String.length_ofList, String.toList_ofList, h]
  rfl

set_option maxRecDepth 20000 in
theorem parse_smallManifest : parse smallTools.toPython smallManifest = .ok smallDoc := by
  apply parse_of_value rfl
  rfl

set_option maxRecDepth 20000 in
theorem checkManifest_small : checkManifest smallTools.toPython smallManifest = .ok smallDoc := by
  have hvalid : Draft.valid searchPattern schema smallDoc = true := by decide +kernel
  have hvalidate : validate smallTools.toPython smallDoc = .ok () := by
    simp only [validate, smallTools, hvalid]
    rfl
  unfold checkManifest
  simp only [parse_smallManifest, Foundation.Fallible.ok_bind, hvalidate]
  rfl

/-- The steps of a fetch whose checks all pass. -/
theorem accept_of {w : World} {tools : Tools F} {first files : List (String × Content)}
    {raw : Content} {doc : Value F} {names : List String}
    (hlocal : forall op, op ∈ [.makeFirst, .readFirst, .makeFiles, .readAgain] ->
      w.fails op = false)
    (hfirst : request w .manifest ["manifest.json"] MAX_MANIFEST_BYTES = .ok first)
    (hraw : contentOf "manifest.json" first = .ok raw)
    (hdoc : checkManifest tools.toPython raw = .ok doc)
    (hnames : listedNames doc = .ok names)
    (hfiles : request w .files ("manifest.json" :: names) LIMIT = .ok files)
    (hagain : contentOf "manifest.json" files = .ok raw)
    (hverify : verify w tools files doc = .ok ()) : accept w tools = .ok (doc, files) := by
  have hattempt : forall op, op ∈ [.makeFirst, .readFirst, .makeFiles, .readAgain] ->
      attempt w op = .ok () := by
    intro op hop
    rw [attempt, hlocal op hop]
    rfl
  have hdoc' : firstManifest tools raw = .ok doc := by rw [firstManifest, hdoc]
  have hsame : rejectIf (decide (raw ≠ raw)) "manifest.json changed during the fetch" = .ok () := by
    rw [decide_eq_false (not_not_intro rfl)]
    rfl
  simp only [accept, hattempt .makeFirst (by simp), hattempt .readFirst (by simp),
    hattempt .makeFiles (by simp), hattempt .readAgain (by simp), hfirst, hraw, hdoc', hnames,
    hfiles, Except.mapError, hagain, hsame, hverify, Foundation.Fallible.ok_bind]
  rfl

theorem accept_small (full : Bool) :
    accept (smallWorld full) smallTools = .ok (smallDoc, smallGot) := by
  have hfirst : request (smallWorld full) .manifest ["manifest.json"] MAX_MANIFEST_BYTES =
      .ok [("manifest.json", smallManifest)] := by rfl
  have hnames : listedNames smallDoc = .ok ["hwloc.xml", "meta.json", "nics.json"] := by rfl
  have hfiles : request (smallWorld full) .files
      ["manifest.json", "hwloc.xml", "meta.json", "nics.json"] LIMIT = .ok smallGot := by rfl
  apply accept_of _ hfirst rfl checkManifest_small hnames hfiles
  · rfl
  · rfl
  · intro op hop
    have hne : op ≠ .makeDiagnostics := by
      intro hop'
      rw [hop'] at hop
      simp at hop
    show (op == .makeDiagnostics && full) = false
    rw [beq_false_of_ne hne, Bool.false_and]

theorem fetch_small : fetch (smallWorld false) smallTools .absent =
    (.ok (.accepted (.str "complete") []), .dir (asEntries smallGot)) := by
  apply fetch_kept rfl rfl (accept_small false)
  rfl

theorem fetch_accepted_small : exists raw doc listed entries,
    (exists got, Brought (smallWorld false) .manifest ["manifest.json"] MAX_MANIFEST_BYTES got ∧
      ("manifest.json", raw) ∈ got) ∧
    checkManifest smallTools.toPython raw = .ok doc ∧ Usable doc listed ∧
    Dest.dir (asEntries smallGot) = .dir entries ∧ Delivered smallTools raw listed entries :=
  fetch_accepted smallTools_validates fetch_small

/-- The small capture is stranded when the disk is full after it was moved. -/
theorem not_leavesOnlyDiagnostics_full :
    ¬ LeavesOnlyDiagnostics (smallWorld true) smallTools := by
  intro h
  have hfetch := fetch_stranded (w := smallWorld true) rfl rfl rfl rfl (accept_small true)
  cases h _ _ hfetch rfl with
  | inl hnil => cases hnil
  | inr hone =>
      obtain ⟨bytes, hone⟩ := hone
      rw [smallGot, asEntries, List.map_cons, List.cons.injEq, Prod.mk.injEq] at hone
      exact absurd hone.1.1 (by decide)

end Fetch
end Dev
end Ostia

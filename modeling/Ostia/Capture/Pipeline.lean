import Ostia.Capture.Directory
import Ostia.Capture.LeakSearch
import Ostia.Capture.Manifest
import Ostia.Foundation.Effect

/-!
# The capture pipeline

A capture stages its files in a scratch directory, checks them there, copies them to the
output directory and writes its record: the diagnostics and, last, the manifest.  Every
call of outside code may return any value or throw, and every file operation may fail, as
the environment of the run says.
-/

namespace Ostia
namespace Capture

open Foundation

/-!
## A run and its environment
-/

/-- A path that is unlinked when a signal arrives. -/
inductive Path where
  | scratchDir
  | scratch (name : String)
  | outDir
  | out (name : String)
deriving DecidableEq

def kMaxTracked : Nat := 64

inductive Exn where
  | abort (code : ErrorCode)
  | noScratch
  | system
  | standard
  | nonstandard

abbrev Scratched := OrdMap String Bytes

structure Run where
  out : Out
  scratch : Option Scratched
  tracked : List Path
  diag : List Bytes
  manifest : Manifest
  written : List String
  leakOrSchema : Bool
  otherFailure : Bool
  isPartial : Bool

def Run.start (out : Out) (tracked : List Path) (diag : List Bytes) : Run :=
  ⟨out, none, tracked, diag, Manifest.start, [], false, false, false⟩

/-- How the writing of one file goes: its open, the lengths after its writes, where it stops. -/
structure WriteFault where
  opens : Bool
  cuts : List Nat
  stops : Option Nat

/-- The writes of a run to its output; the record may be written again. -/
inductive Op where
  | data (name : String)
  | diagnostics (again : Bool)
  | temporary (again : Bool)

inductive Sync where
  | before (again : Bool)
  | rename (again : Bool)
  | after (again : Bool)

/-- Why the facts of the GPUs are missing. -/
inductive NvmlReason where
  | unavailable
  | symbols
  | init
  | deviceCount
  | deviceHandle
  | pciInfo
  | busIdFormat
  | busIdDomain
deriving DecidableEq

def NvmlReason.name : NvmlReason -> String
  | .unavailable => "nvml_unavailable"
  | .symbols => "nvml_symbols"
  | .init => "nvml_init"
  | .deviceCount => "nvml_device_count"
  | .deviceHandle => "nvml_device_handle"
  | .pciInfo => "nvml_pci_info"
  | .busIdFormat => "bus_id_format"
  | .busIdDomain => "bus_id_domain"

inductive Nvml where
  | notRequired
  | missing (reason : NvmlReason)
  | facts (text : Except Exn Bytes)

inductive Links where
  | unreadable
  | invalid (paths : List Bytes)
  | text (bytes : Except Exn Bytes)

inductive Replay where
  | rejected (code file : Bytes)
  | identity (text : Bytes)

/-- What a JSON parser makes of the bytes of an earlier manifest. -/
inductive Parsed where
  | object
  | notObject
  | throws

/-- What the outside of a run returns or throws, and which of its file operations fail. -/
structure Env where
  nodeIndex : Option Nat
  sources : Except Exn Nvml
  sourceLines : List Bytes
  raw : Except Exn RawSet
  rawLines : List Bytes
  xml : Except Exn Bytes
  xmlLines : List Bytes
  beforeReimport : Bytes -> Except Exn Bytes
  reimport : Bytes -> Except Exn Bool
  nics : Except Exn Bytes
  links : Option Links
  metaText : Except Exn Bytes
  beforeValidate : Scratched -> Except Exn Scratched
  /-- The paths of the schema errors of a file, none when it is not readable JSON. -/
  violations : String -> Bytes -> Except Exn (Option (List Bytes))
  locate : File -> Nat -> Bytes
  replay : Scratched -> Except Exn Replay
  beforeManifest : Except Exn PUnit
  afterPrintId : Except Exn PUnit
  parse : Bytes -> Parsed
  elapsed : Nat -> Nat
  createFails : Bool
  readFails : Bool
  scratchFails : Bool
  idDirectoryFails : Bool
  stageFails : String -> Bool
  validateReads : String -> Bool
  searchReads : String -> Bool
  write : Op -> WriteFault
  syncFails : Sync -> Bool

abbrev M : Type -> Type := Effect Run Exn

def kDataFiles : List String := ["hwloc.xml", "nvml.json", "nics.json", "links.json", "meta.json"]

def kRecordFiles : List String := ["diagnostics.txt", "manifest.json.tmp", "manifest.json"]

def reserved (name : String) : Prop := name ∈ kDataFiles ∨ name ∈ kRecordFiles

section Steps

def addLine (line : Bytes) : M PUnit := Effect.modify fun s => { s with diag := s.diag ++ [line] }

def addLines (lines : List Bytes) : M PUnit := Effect.each addLine lines

def render (lines : List Bytes) : Bytes := List.intercalate (ascii "\n") lines

def fixedMs (us : Nat) : Bytes :=
  let frac := toString (us % 1000)
  ascii (toString (us / 1000) ++ "." ++
    String.ofList (List.replicate (3 - frac.length) '0') ++ frac)

def countOf (n : Nat) (noun : String) : Bytes := ascii (toString n ++ " " ++ noun)

def trackForCleanup (path : Path) : M PUnit :=
  Effect.modify fun s =>
    if s.tracked.length ≥ kMaxTracked then s else { s with tracked := s.tracked ++ [path] }

def setFile (name : String) (bytes : Bytes) : M PUnit :=
  Effect.modify fun s => { s with out := s.out.write name bytes }

def removeFile (name : String) : M PUnit :=
  Effect.modify fun s => { s with out := s.out.remove name }

/-- Write a file of the output: it is created or emptied, filled, and synced. -/
def writeSynced (name : String) (bytes : Bytes) (exclusive : Bool) (f : WriteFault) : M PUnit := do
  let s ← Effect.get
  if f.opens && s.out.opens name exclusive then
    setFile name []
    Effect.each (fun n => setFile name (bytes.take n)) f.cuts
    match f.stops with
    | some n =>
        setFile name (bytes.take n)
        Effect.throw .system
    | none => setFile name bytes
  else Effect.throw .system

end Steps

section Run

variable (printer : Printer) (sha256Hex : Bytes -> String) (env : Env)

/-!
## The record
-/

/-- The manifest goes to a temporary name and is renamed when it is complete. -/
def installManifest (text : Bytes) (again : Bool) : M PUnit := do
  removeFile "manifest.json.tmp"
  writeSynced "manifest.json.tmp" text true (env.write (.temporary again))
  Effect.throwIf (env.syncFails (.before again)) .system
  let s ← Effect.get
  Effect.throwIf (env.syncFails (.rename again) || !s.out.replaceable "manifest.json") .system
  Effect.modify fun s => { s with out := s.out.rename "manifest.json.tmp" "manifest.json" }

def writeManifestAtomic (again : Bool) : M PUnit := do
  let s ← Effect.get
  Effect.handle (installManifest env (manifestText printer s.manifest) again) fun e => do
    removeFile "manifest.json.tmp"
    Effect.throw e
  Effect.throwIf (env.syncFails (.after again)) .system

/-- The hook before the first manifest. -/
def beforeManifest (again : Bool) : M PUnit :=
  if again then pure ⟨⟩ else Effect.ofExcept env.beforeManifest

def writeRecord (code : Nat) (again : Bool) : M PUnit := do
  addLine (ascii ("capture: exit " ++ toString code))
  Effect.each (fun name => trackForCleanup (.out name)) kRecordFiles
  let s ← Effect.get
  writeSynced "diagnostics.txt" (render s.diag ++ ascii "\n") false
    (env.write (.diagnostics again))
  beforeManifest env again
  writeManifestAtomic printer env again

/-- A failed capture lists no files, has no id and leaves no data file. -/
def toFailedForm : M PUnit := do
  let s ← Effect.get
  Effect.each removeFile s.written
  Effect.modify fun s => { s with manifest := s.manifest.failedForm }

def removeRecord : M PUnit :=
  Effect.each removeFile ["diagnostics.txt", "manifest.json", "manifest.json.tmp"]

structure CaptureOutcome where
  exitCode : Nat
  topologyId : Option String
deriving DecidableEq

/-- Drop the paths that were tracked after a mark. -/
def release (mark : Nat) : M PUnit :=
  Effect.modify fun s => { s with tracked := s.tracked.take mark }

/-- Handle the exceptions of failed file operations. -/
def handleSystem {A : Type} (m : M A) (handler : M A) : M A :=
  Effect.handle m fun e =>
    match e with
    | .system => handler
    | e => Effect.throw e

/-- The form of the manifest for an exit code. -/
def setForm (code : Nat) : M PUnit :=
  if code = 1 ∨ code = 3 then toFailedForm
  else
    Effect.modify fun s =>
      { s with manifest :=
        { s.manifest with status := if s.isPartial then .partialCapture else .complete } }

def noteWriteFailed : M PUnit :=
  Effect.modify fun s => { s with manifest := s.manifest.addWriteFailed, otherFailure := true }

/-- The record of a capture whose record could not be written. -/
def recordAgain : M Nat := do
  addLine (ascii "capture: diagnostics.txt or the manifest could not be written")
  noteWriteFailed
  let s ← Effect.get
  let code := exitFor s.leakOrSchema s.otherFailure s.isPartial
  toFailedForm
  removeRecord
  handleSystem (writeRecord printer env code true) removeRecord
  pure code

/-- Write the record; when that fails, write it once more as a failed one. -/
def finish (mark : Nat) : M CaptureOutcome := do
  let s ← Effect.get
  let code := exitFor s.leakOrSchema s.otherFailure s.isPartial
  setForm code
  let code ← handleSystem
    (do
      writeRecord printer env code false
      release mark
      pure code)
    (recordAgain printer env)
  let s ← Effect.get
  pure ⟨code, s.manifest.topologyId⟩

/-!
## Staging and checking
-/

def fail (code : ErrorCode) (leakOrSchema : Bool) : M PUnit :=
  Effect.modify fun s =>
    { s with
      leakOrSchema := s.leakOrSchema || leakOrSchema
      otherFailure := s.otherFailure || !leakOrSchema
      manifest := { s.manifest with errors := s.manifest.errors ++ [code] } }

def failIf (c : Bool) (code : ErrorCode) (leakOrSchema : Bool) : M PUnit :=
  if c then fail code leakOrSchema else pure ⟨⟩

def readLinks (links : Links) : M Bytes :=
  match links with
  | .unreadable => do
      addLine (ascii "links: the --links file cannot be read or is not JSON")
      Effect.throw (.abort .linksRead)
  | .invalid paths => do
      addLines (paths.map fun path =>
        ascii "links: schema violation at " ++ if path = [] then ascii "/" else path)
      Effect.throw (.abort .linksSchema)
  | .text bytes => Effect.ofExcept bytes

def schemaFor (name : String) : Bool :=
  name = "nvml.json" || name = "nics.json" || name = "links.json" || name = "meta.json"

/-- Write a staged file to the scratch directory. -/
def stage (file : String × Bytes) : M PUnit := do
  trackForCleanup (.scratch file.1)
  Effect.throwIf (env.stageFails file.1) .system
  Effect.modify fun s =>
    { s with scratch := s.scratch.map fun d => d.insert file.1 file.2 }

/-- A staged file as it is read back, none when it cannot be. -/
def readStaged (reads : String -> Bool) (staged : Option Scratched) (name : String) :
    Option Bytes :=
  if reads name then staged.bind fun d => d.find? name else none

/-- The schema errors of a staged file, none when it is not readable JSON. -/
def fileViolations (staged : Option Scratched) (name : String) :
    Except Exn (Option (List Bytes)) :=
  match readStaged env.validateReads staged name with
  | some text => env.violations name text
  | none => .ok none

/-- Check a staged file as it is read back, and say whether it is valid. -/
def validateFile (file : String × Bytes) : M Bool :=
  if schemaFor file.1 then do
    let s ← Effect.get
    let result ← Effect.ofExcept (fileViolations env s.scratch file.1)
    match result with
    | none => do
        addLine (ascii ("schema: " ++ file.1 ++ " is not readable JSON"))
        pure false
    | some paths => do
        addLines (paths.map fun path =>
          ascii ("schema: " ++ file.1 ++ " violation at ") ++
            if path = [] then ascii "/" else path)
        pure paths.isEmpty
  else pure true

def validateFiles : List (String × Bytes) -> M Bool
  | [] => pure true
  | file :: rest => do
      let valid ← validateFile env file
      let others ← validateFiles rest
      pure (valid && others)

def validateStaged (files : List (String × Bytes)) : M Bool := do
  let valid ← validateFiles env files
  addLine (ascii "validate: " ++ countOf files.length "file(s) in " ++ fixedMs (env.elapsed 2) ++
    ascii " ms")
  pure valid

def IdKind.name : IdKind -> String
  | .mac => "mac"
  | .guid => "guid"
  | .gid => "gid"
  | .ipv4 => "ipv4"
  | .ipv6 => "ipv6"
  | .ipoib => "ipoib"
  | .uuid => "uuid"
  | .serial => "serial"
  | .hostname => "hostname"
  | .machineId => "machine-id"
  | .dmi => "dmi"
  | .instanceId => "instance-id"
  | .extra => "extra"
  | .unreadable => "unreadable"

/-- The file, line and kind of a finding, never its value. -/
def Finding.text (f : Finding) : Bytes :=
  if f.kind = .unreadable then f.file ++ ascii ":0 unreadable"
  else
    f.file ++ ascii (":" ++ toString f.line) ++
      (if f.locator = [] then [] else ascii " " ++ f.locator) ++ ascii (": " ++ f.kind.name)

/-- The rewritten topology, when it can be imported again. -/
def emitXml : M Bytes := do
  addLines env.xmlLines
  let emitted ← Effect.ofExcept env.xml
  let xml ← Effect.ofExcept (env.beforeReimport emitted)
  let imports ← Effect.ofExcept (env.reimport xml)
  if imports then do
    addLine (ascii "emit: hwloc.xml in " ++ fixedMs (env.elapsed 1) ++ ascii " ms")
    pure xml
  else do
    addLine (ascii "emit: hwloc.xml does not re-import with the replay flags")
    Effect.throw (.abort .xmlReimport)

def nvmlFile : Nvml -> M (List (String × Bytes))
  | .facts text => do
      let bytes ← Effect.ofExcept text
      pure [("nvml.json", bytes)]
  | _ => pure []

def linksFile : Option Links -> M (List (String × Bytes))
  | some links => do
      let bytes ← readLinks links
      pure [("links.json", bytes)]
  | none => pure []

/-- The files that are written, in the order of the source. -/
def stagedFiles (nvml : Nvml) : M (List (String × Bytes)) := do
  let xml ← emitXml env
  let nvmlPart ← nvmlFile nvml
  let nics ← Effect.ofExcept env.nics
  let linksPart ← linksFile env.links
  let metaBytes ← Effect.ofExcept env.metaText
  pure ([("hwloc.xml", xml)] ++ nvmlPart ++ [("nics.json", nics)] ++ linksPart ++
    [("meta.json", metaBytes)])

/-- What the search finds in the staged files of the given names. -/
def stagedFindings (raw : RawSet) (staged : Option Scratched) (names : List String) :
    List Finding :=
  search env.locate raw (names.map fun name => ⟨ascii name, readStaged env.searchReads staged name⟩)

/-- Note what the search found; whether a leak or an unreadable file was. -/
def noteFindings (searched : Nat) (findings : List Finding) : M Bool := do
  addLine (ascii "leak search: " ++ countOf searched "file(s), " ++
    countOf findings.length "finding(s) in " ++ fixedMs (env.elapsed 3) ++ ascii " ms")
  addLines (findings.map fun f => ascii "leak: " ++ f.text)
  Effect.modify fun s =>
    { s with manifest :=
      { s.manifest with leakCheck := if findings.isEmpty then .passed else .failed } }
  failIf (findings.any fun f => f.kind ≠ .unreadable) .leak true
  failIf (findings.any fun f => f.kind = .unreadable) .outputUnreadable false
  pure (findings.any (fun f => f.kind ≠ .unreadable) ||
    findings.any fun f => f.kind = .unreadable)

def stageDiagnostics : M PUnit := do
  let s ← Effect.get
  stage env ("diagnostics.txt", render s.diag ++ ascii "\n")

/-- The names of the files that are searched. -/
def searchedNames (files : List (String × Bytes)) : List String :=
  files.map Prod.fst ++ ["diagnostics.txt"]

/-- The leak check of the staged files and of the diagnostics so far. -/
def leakCheck (raw : RawSet) (files : List (String × Bytes)) : M Bool := do
  stageDiagnostics env
  let s ← Effect.get
  noteFindings env (searchedNames files).length
    (stagedFindings env raw s.scratch (searchedNames files))

def replayed : M String := do
  let s ← Effect.get
  let result ← Effect.ofExcept (env.replay (s.scratch.getD OrdMap.empty))
  match result with
  | .rejected code file => do
      addLine (ascii "replay: " ++ code ++ ascii " in " ++
        if file = [] then ascii "(model)" else file)
      Effect.throw (.abort .replay)
  | .identity text => do
      addLine (ascii "replay: topo1 in " ++ fixedMs (env.elapsed 4) ++ ascii " ms")
      pure ("topo1:sha256:" ++ sha256Hex text)

/-- Copy a staged file to the output and list it. -/
def publish (file : String × Bytes) : M PUnit := do
  trackForCleanup (.out file.1)
  Effect.modify fun s => { s with written := s.written ++ [file.1] }
  writeSynced file.1 file.2 false (env.write (.data file.1))
  Effect.modify fun s =>
    { s with manifest :=
      { s.manifest with files := s.manifest.files.insert file.1 (fileHash sha256Hex file.2) } }

def noteNodeIndex : M PUnit :=
  match env.nodeIndex with
  | some n => addLine (ascii ("node index: " ++ toString n))
  | none => pure ⟨⟩

def noteMissing : Nvml -> M PUnit
  | .missing reason =>
      Effect.modify fun s =>
        { s with
          manifest := { s.manifest with
            missing := s.manifest.missing ++ [⟨"nvml.json", reason.name⟩] }
          isPartial := true }
  | _ => pure ⟨⟩

/-- The staged files as the hook leaves them. -/
def runBeforeValidate : M PUnit := do
  let s ← Effect.get
  let staged ← Effect.ofExcept (env.beforeValidate (s.scratch.getD OrdMap.empty))
  Effect.modify fun s => { s with scratch := some staged }

/-- Everything before the validation of the staged files. -/
def stageFiles : M (RawSet × List (String × Bytes)) := do
  noteNodeIndex env
  addLines env.sourceLines
  let nvml ← Effect.ofExcept env.sources
  noteMissing nvml
  addLines env.rawLines
  let raw ← Effect.ofExcept env.raw
  addLine (ascii "leak raw set: " ++ countOf raw.entries.length "form(s) after derivation, " ++
    countOf raw.skippedShort "skipped as too short, in " ++ fixedMs (env.elapsed 0) ++
    ascii " ms")
  let files ← stagedFiles env nvml
  Effect.each (stage env) files
  runBeforeValidate env
  pure (raw, files)

/-- Replay the staged files for the id, copy them to the output and list them. -/
def publishAll (files : List (String × Bytes)) : M PUnit := do
  let id ← replayed sha256Hex env
  Effect.each (publish sha256Hex env) files
  Effect.modify fun s => { s with manifest := { s.manifest with topologyId := some id } }

def noteSanitized : M PUnit :=
  Effect.modify fun s => { s with manifest := { s.manifest with sanitized := true } }

/-- The leak check and what follows it. -/
def checkAndPublish (raw : RawSet) (files : List (String × Bytes)) : M PUnit := do
  noteSanitized
  let stopped ← leakCheck env raw files
  if stopped then pure ⟨⟩ else publishAll sha256Hex env files

def stageAndCheck : M PUnit := do
  let staged ← stageFiles env
  let valid ← validateStaged env staged.2
  if valid then checkAndPublish sha256Hex env staged.1 staged.2 else fail .schema true

/-!
## A run
-/

def makeScratch : M PUnit := do
  Effect.throwIf env.scratchFails .noScratch
  Effect.modify fun s => { s with scratch := some OrdMap.empty }
  trackForCleanup .scratchDir

/-- The scratch directory exists while the files are staged and checked. -/
def withScratch (m : M PUnit) : M PUnit := do
  makeScratch env
  m.ensure fun s => { s with scratch := none }

/-- Every exception of the pipeline is a failure with its code. -/
def failWith : Exn -> M PUnit
  | .abort code => fail code false
  | .noScratch => do
      addLine (ascii "capture: no scratch directory could be created under TMPDIR")
      fail .internal false
  | .system => do
      addLine (ascii "capture: an output file could not be written")
      fail .writeFailed false
  | .standard => do
      addLine (ascii "capture: unexpected exception")
      fail .internal false
  | .nonstandard => do
      addLine (ascii "capture: unexpected non-standard exception")
      fail .internal false

def go (mark : Nat) : M CaptureOutcome := do
  Effect.handle (withScratch env (stageAndCheck sha256Hex env)) failWith
  finish printer env mark

/-- What an earlier capture's manifest is. -/
def previous (out : Out) : Parsed :=
  if env.readFails then .notObject
  else
    match out.read? "manifest.json" with
    | some text => env.parse text
    | none => .notObject

/-- Remove an earlier capture: its data files first, then its record. -/
def removePrevious (files : Files) : M PUnit := do
  Effect.each removeFile kDataFiles
  Effect.each removeFile ["manifest.json", "manifest.json.tmp", "diagnostics.txt"]
  let removed := kDataFiles.filter fun name => (files.find? name).any fun e => !e.stuck
  addLine (ascii "out: removed a previous capture (" ++ countOf removed.length "data file(s))")

/-- Make the output directory ready, or refuse it. -/
def prepareOut : M Bool := do
  let s ← Effect.get
  match s.out with
  | .absent => do
      Effect.throwIf env.createFails .system
      Effect.modify fun s => { s with out := .directory OrdMap.empty }
      pure true
  | .other => do
      addLine (ascii "out: refused, not a directory")
      pure false
  | .directory files =>
      if files.entries.isEmpty then pure true
      else
        match previous env s.out with
        | .throws => Effect.throw .standard
        | .notObject => do
            addLine (ascii "out: refused, non-empty without a readable manifest.json")
            pure false
        | .object => do
            removePrevious files
            pure true

/-- A run in its cleanup scope: what it tracked is dropped at its end. -/
def inScope (m : Nat -> M CaptureOutcome) : M CaptureOutcome := do
  let s ← Effect.get
  (m s.tracked.length).ensure fun b => { b with tracked := b.tracked.take s.tracked.length }

def capture : M CaptureOutcome := do
  let prepared ← handleSystem (prepareOut env) (pure false)
  if prepared then inScope (go printer sha256Hex env) else pure ⟨1, none⟩

/-- The record of a failure before the pipeline could run. -/
def writeFailedRecord : M PUnit := do
  let prepared ← prepareOut env
  if prepared then do
    let s ← Effect.get
    writeSynced "diagnostics.txt" (render s.diag ++ ascii "\n") false
      (env.write (.diagnostics false))
    writeManifestAtomic printer env false
  else pure ⟨⟩

def writeFailedCapture (code : ErrorCode) : M CaptureOutcome := do
  Effect.modify fun s =>
    { s with manifest := { s.manifest with errors := s.manifest.errors ++ [code] } }
  addLine (ascii ("capture: failed before the pipeline ran (" ++ code.name ++ ")"))
  handleSystem (writeFailedRecord printer env) (pure ⟨⟩)
  pure ⟨1, none⟩

/-!
## The id of a machine
-/

/-- Every name that a capture can write stays tracked while its directory exists. -/
def trackAll : M PUnit := do
  trackForCleanup .outDir
  Effect.each (fun name => trackForCleanup (.out name)) kDataFiles
  Effect.each (fun name => trackForCleanup (.out name)) kRecordFiles

def captureId : M CaptureOutcome := do
  let outcome ← capture printer sha256Hex env
  Effect.ofExcept env.afterPrintId
  pure outcome

/-- Capture into a directory of its own and remove it, on every way out. -/
def printId : M CaptureOutcome :=
  inScope fun _ =>
    if env.idDirectoryFails then do
      addLine (ascii "print-id: no temporary directory (internal)")
      pure ⟨1, none⟩
    else do
      Effect.modify fun s => { s with out := .directory OrdMap.empty }
      trackAll
      (captureId printer sha256Hex env).ensure fun s => { s with out := .absent }

end Run

/-!
## Signals
-/

/-- What the signal handler does with a tracked path. -/
def unlinkPath : Path -> M PUnit
  | .scratchDir =>
      Effect.modify fun s =>
        { s with scratch := if s.scratch.any fun d => d.entries.isEmpty then none else s.scratch }
  | .scratch name =>
      Effect.modify fun s => { s with scratch := s.scratch.map fun d => d.erase name }
  | .outDir => Effect.modify fun s => { s with out := s.out.rmdir }
  | .out name => Effect.modify fun s => { s with out := s.out.unlink name }

/-- The handler removes what is tracked, the newest first. -/
def runSignalCleanup : M PUnit := do
  let s ← Effect.get
  Effect.each unlinkPath s.tracked.reverse

end Capture
end Ostia

import Ostia.Tool.Fixture
import Ostia.Tool.PrintDiff
import Ostia.Topology.Identity.Canonical
import Ostia.Topology.Identity.Pair

/-!
# The topology tool

The commands read one machine, or a pair of machines that pair.json names, and print its model,
its id, or what two of them differ in.  The exit code says whether two texts or two ids agree.
-/

namespace Ostia
namespace Tool

open Foundation
open Capture (Bytes ascii utf8)
open Ostia.Topology (Json Model Node Schema TopologyError)

structure Outcome where
  exit : Nat
  output : Bytes

def kOk : Nat := 0

def kMismatch : Nat := 1

def kUsage : Nat := 2

/-- The fixture could not be read or replayed. -/
def kTopology : Nat := 3

section Commands

variable (host : Host) (disk : Disk)

/-!
## Pairs
-/

/-- The document of a pair, and the directories that it names. -/
structure PairFile where
  json : Json
  name0 : String
  name1 : String

def isPair (dir : String) : Except Exn Bool := do
  let slot ← slotAt disk (join dir "pair.json")
  pure slot.isSome

/-- What reading a path gives, none when it cannot be opened. -/
def opened (path : String) : Option (Except String Bytes) :=
  match disk path with
  | .ok (some slot) => slot.content
  | _ => none

def namedNodes (path : String) (doc : Json) : Except Exn PairFile :=
  match doc.get? "nodes" with
  | some (.arr [.str name0, .str name1]) => .ok ⟨doc, name0, name1⟩
  | _ => refused "schema" path "nodes must be two directory names"

def checkedPair (path : String) (doc : Json) : Except Exn PairFile :=
  match Schema.validate host.env Schema.pair doc with
  | [] => namedNodes path doc
  | e :: _ => refused "schema" path (e.path ++ ": " ++ e.message)

def readPair (dir : String) : Except Exn PairFile :=
  match opened disk (join dir "pair.json") with
  | none => refused "io" (join dir "pair.json") "cannot read file"
  | some text => do
      let bytes ← standard text
      match host.parse bytes with
      | .error _ => refused "schema" (join dir "pair.json") "not valid JSON"
      | .ok doc => checkedPair host (join dir "pair.json") doc

/-- What a directory holds: one machine, or two that form a pair. -/
inductive Input where
  | machine (model : Model)
  | pair (file : PairFile) (m0 m1 : Model)

def readInput (dir : String) : Except Exn Input := do
  let pair ← isPair disk dir
  if pair then do
    let file ← readPair host disk dir
    let m0 ← load host disk (join dir file.name0)
    let m1 ← load host disk (join dir file.name1)
    pure (.pair file m0 m1)
  else do
    let model ← load host disk dir
    pure (.machine model)

def pairIdOf (pair : Json) (m0 m1 : Model) : Except Exn String := do
  let id0 ← topo1 host m0
  let id1 ← topo1 host m1
  pure (Topology.Identity.pairId host.dump (fun text => host.sha256Hex (utf8 text)) id0 id1 pair)

def Input.id : Input -> Except Exn String
  | .machine model => topo1 host model
  | .pair file m0 m1 => pairIdOf host file.json m0 m1

/-- The document of a pair of models. -/
def pairJson (m0 m1 : Model) (id : String) : Json :=
  .obj [("nodes", .arr [Topology.toJson m0, Topology.toJson m1]), ("pair_id", .str id)]

def Input.text : Input -> Except Exn String
  | .machine model => .ok (Topology.canonicalDump host.dumpIndented model)
  | .pair file m0 m1 => do
      let id ← pairIdOf host file.json m0 m1
      pure (host.dumpIndented (pairJson m0 m1 id) ++ "\n")

def modelText (dir : String) : Except Exn Bytes := do
  let input ← readInput host disk dir
  let text ← input.text host
  pure (utf8 text)

/-!
## The commands
-/

def cmdId (dir : String) : Except Exn Outcome := do
  let input ← readInput host disk dir
  let id ← input.id host
  pure ⟨kOk, utf8 (id ++ "\n")⟩

/-- Compare with the expected text, exactly; a difference is printed. -/
def checkText (expected actual : Bytes) : Outcome :=
  if expected = actual then ⟨kOk, []⟩
  else ⟨kMismatch, printDiff expected actual (ascii "expected") (ascii "actual")⟩

def cmdModel (dir : String) (check : Option String) : Except Exn Outcome := do
  let actual ← modelText host disk dir
  match check with
  | none => pure ⟨kOk, actual⟩
  | some path =>
      match opened disk path with
      | none => refused "io" path "cannot read expected file"
      | some text => do
          let expected ← standard text
          pure (checkText expected actual)

mutual

/-- Members stand under their key, and every element of an array is one line. -/
def outline (indent : String) : Json -> String
  | .obj fields => outlineFields indent fields
  | .arr elements => String.join (elements.map fun e => indent ++ host.dump e ++ "\n")
  | j => indent ++ host.dump j ++ "\n"

def outlineFields (indent : String) : List (String × Json) -> String
  | [] => ""
  | (key, value) :: rest =>
      (if value.isObject || value.isArray then
        indent ++ key ++ ":\n" ++ outline (indent ++ "  ") value
      else indent ++ key ++ ": " ++ host.dump value ++ "\n") ++ outlineFields indent rest

end

/-- What is compared of one input: its id, the identity that the id hashes, and its model with
the keys. -/
structure Side where
  id : String
  identity : Bytes
  keys : Topology.Builder.StringSet
  model : Bytes

def keysOf (before : String) (model : Model) : List String :=
  model.nodes.map fun n => before ++ n.key

/-- The document of an identity. -/
def identityDoc (model : Model) : Except Exn Json := do
  let text ← identityOf host model
  standard (host.parse (utf8 text))

/-- The document that names the identities of a pair; a later name replaces an equal one. -/
def pairIdentity (file : PairFile) (doc0 doc1 : Json) : Json :=
  let members : OrdMap String Json :=
    (OrdMap.empty.insert "link_class" (Topology.Identity.linkClassOf file.json)).insert "rails"
      (Topology.Identity.railsOf file.json)
  Json.ofMap ((members.insert file.name0 doc0).insert file.name1 doc1)

def Input.identity : Input -> Except Exn Json
  | .machine model => identityDoc host model
  | .pair file m0 m1 => do
      let doc0 ← identityDoc host m0
      let doc1 ← identityDoc host m1
      pure (pairIdentity file doc0 doc1)

def Input.keys : Input -> List String
  | .machine model => keysOf "" model
  | .pair file m0 m1 => keysOf (file.name0 ++ "/") m0 ++ keysOf (file.name1 ++ "/") m1

def sideOf (dir : String) : Except Exn Side := do
  let input ← readInput host disk dir
  let id ← input.id host
  let doc ← input.identity host
  let text ← input.text host
  pure ⟨id, utf8 (outline host "" doc), Topology.Builder.setOf input.keys, utf8 text⟩

def verdict (same : Bool) : String := if same then "same topology\n" else "different topology\n"

/-- The identities are compared when the ids differ, the models when the bus IDs are the same. -/
def diffSides (sa sb : Side) : Outcome :=
  let same := decide (sa.id = sb.id)
  ⟨if same then kOk else kMismatch,
    utf8 ("a: " ++ sa.id ++ "\nb: " ++ sb.id ++ "\n" ++ verdict same) ++
      (if same then []
      else printDiff sa.identity sb.identity (ascii "a identity") (ascii "b identity")) ++
      if sa.keys.entries = sb.keys.entries ∧ sa.model ≠ sb.model then
        ascii "keyed model (the bus IDs match):\n" ++
          printDiff sa.model sb.model (ascii "a model") (ascii "b model")
      else []⟩

def cmdDiff (a b : String) : Except Exn Outcome := do
  let pairA ← isPair disk a
  let pairB ← isPair disk b
  if pairA != pairB then refused "diff_kinds" "" "cannot compare a pair with a single machine"
  else do
    let sa ← sideOf host disk a
    let sb ← sideOf host disk b
    pure (diffSides sa sb)

/-!
## The command line
-/

def kUsageText : String :=
  "usage: ostia-topo show <dir>\n" ++
  "       ostia-topo model <dir> [--check <expected.json>]\n" ++
  "       ostia-topo id <dir>\n" ++
  "       ostia-topo diff <a> <b>\n" ++
  "       ostia-topo --help\n" ++
  "<dir> is a fixture directory, or a pair directory holding pair.json and node dirs.\n" ++
  "diff exits 0 when the topology ids are equal and 1 when they differ.\n"

/-- The command of the arguments, with the command that shows a fixture. -/
def run (cmdShow : String -> Except Exn Outcome) : List String -> Except Exn Outcome
  | [] => .error .usage
  | "--help" :: _ => .ok ⟨kOk, utf8 kUsageText⟩
  | "-h" :: _ => .ok ⟨kOk, utf8 kUsageText⟩
  | ["diff", a, b] => cmdDiff host disk a b
  | ["show", dir] => cmdShow dir
  | ["id", dir] => cmdId host disk dir
  | ["model", dir] => cmdModel host disk dir none
  | ["model", dir, "--check", path] => cmdModel host disk dir (some path)
  | _ => .error .usage

def fixFor (code : String) : String :=
  if code = "diff_kinds" then "pass two machine fixtures or two pair fixtures"
  else if code = "schema" then
    "regenerate with fabric/tests/fixtures/topology/synthetic/generate.py, or recapture"
  else if code = "dangling_reference" then "the bus ID must appear in hwloc.xml; recapture"
  else if code = "xml" then "recapture; hwloc >= 2.4 must import it"
  else
    "inspect the named fixture file and recapture it; a path error means the directory is " ++
      "wrong"

def report (e : TopologyError) : String :=
  "error: " ++ e.what ++ "\n  rule: fixtures follow RFC-0003 §2 and §9\n  fix: " ++
    fixFor e.code ++ "\n  see: RFC-0003 §9\n"

/-- The outcome of the tool, and what it prints on standard error. -/
def main (cmdShow : String -> Except Exn Outcome) (args : List String) : Outcome × String :=
  match run host disk cmdShow args with
  | .ok outcome => (outcome, "")
  | .error .usage => (⟨kUsage, []⟩, kUsageText)
  | .error (.topology e) => (⟨kTopology, []⟩, report e)
  | .error (.standard what) => (⟨kTopology, []⟩, report ⟨"unreadable", "", what⟩)

end Commands

end Tool
end Ostia

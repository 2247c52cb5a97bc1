import Ostia.Capture.Manifest
import Ostia.Capture.Replay

/-!
# Reading a fixture

A fixture is a directory with the exported tree of a machine and the documents about its
devices.  Every document is checked against its schema before a model is built of the facts.
-/

namespace Ostia

/-!
## The schemas of a fixture
-/

namespace Topology
namespace Schema

def linkTest : Schema :=
  document [("bench", ofType "string"), ("bytes", ofType "integer"),
    ("concurrency", ofType "integer")] ["bench", "bytes", "concurrency"]

def atLeastOne : Schema := { type := some (.one "integer"), minimum := some 1 }

def linkProperties : List (String × Schema) :=
  [("from", busId), ("to", busId), ("kind", ofEnum ["nvlink", "pcie", "c2c"]),
   ("direction", ofEnum ["forward", "reverse"]), ("bw_mbps", atLeastOne),
   ("latency_ns", ofType "integer"), ("test", linkTest), ("samples", atLeastOne)]

/-- The schema of links.json. -/
def links : Schema :=
  document
    [("schema", { const := some (Json.int 1) }),
     ("links", arrayOf linkProperties
       ["from", "to", "kind", "direction", "bw_mbps", "test", "samples"])]
    ["schema", "links"]

def railEnd : Schema := document [("nic_index", ofType "integer")] ["nic_index"]

def measuredProperties : List (String × Schema) :=
  [("rail", ofType "integer"), ("direction", ofType "string"), ("bw_mbps", ofType "integer"),
   ("test", ofType "string")]

/-- The schema of pair.json. -/
def pair : Schema :=
  document
    [("schema", { const := some (Json.int 1) }),
     ("nodes", { type := some (.one "array"), items := some (ofType "string") }),
     ("link_class", ofEnum ["infiniband", "roce", "efa", "tcp"]),
     ("rails", arrayOf [("node-0", railEnd), ("node-1", railEnd)] ["node-0", "node-1"]),
     ("measured", arrayOf measuredProperties ["rail", "direction", "bw_mbps", "test"])]
    ["schema", "nodes", "link_class", "rails", "measured"]

end Schema
end Topology

namespace Tool

open Capture (Bytes utf8)
open Ostia.Topology (Fault Json Model Schema SchemaError TopologyError)

/-!
## Files
-/

/-- What stands at a path: whether it is a regular file and, when it can be opened, what reading
it gives. -/
structure Slot where
  regular : Bool
  content : Option (Except String Bytes)

/-- What stands at each path, none when nothing does; asking for it can fail. -/
abbrev Disk := String -> Except String (Option Slot)

/-- A path below a directory; an absolute one stands for itself. -/
def join (dir name : String) : String :=
  if name.toList.head? = some '/' then name
  else if dir = "" ∨ dir.toList.getLast? = some '/' then dir ++ name
  else dir ++ "/" ++ name

inductive Exn where
  | usage
  | topology (e : TopologyError)
  | standard (what : String)
deriving DecidableEq

def refused {A : Type} (code file detail : String) : Except Exn A :=
  .error (.topology ⟨code, file, detail⟩)

/-- What the outside of the tool does: the JSON library, hwloc, the hash, the regular expressions
and the texts of exceptions. -/
structure Host where
  dump : Json -> String
  dumpIndented : Json -> String
  /-- The document of a text, or what is wrong with the text. -/
  parse : Bytes -> Except String Json
  regexSearch : String -> String -> Bool
  sameNumber : Json -> Json -> Bool
  /-- The tree that hwloc makes of an exported one, none when it refuses it. -/
  importXml : Bytes -> Option Capture.Hwloc.Topology
  sha256Hex : Bytes -> String
  what : Fault -> String

section Reading

variable (host : Host) (disk : Disk)

def Host.env : Schema.Env := ⟨host.dump, host.regexSearch, host.sameNumber⟩

def standard {A : Type} : Except String A -> Except Exn A
  | .ok a => .ok a
  | .error what => .error (.standard what)

def slotAt (path : String) : Except Exn (Option Slot) := standard (disk path)

/-!
## Documents
-/

def kSchemaVersion : Int := 1

/-- The text of the violations of a document. -/
def violationText (errors : List SchemaError) : String :=
  "; ".intercalate (errors.map fun e => e.path ++ " " ++ e.message)

/-- A version that is not supported is named. -/
def versionText (doc : Json) : String :=
  match doc.get? "schema" with
  | some version =>
      if Schema.same host.env version (.int kSchemaVersion) then ""
      else " (supported: " ++ toString kSchemaVersion ++ ")"
  | none => ""

def checkedDocument (name : String) (schema : Schema) (doc : Json) : Except Exn Json :=
  match Schema.validate host.env schema doc with
  | [] => .ok doc
  | errors => refused "schema" name (violationText errors ++ versionText host doc)

def parsedDocument (name : String) (bytes : Bytes) : Except Exn Json :=
  match host.parse bytes with
  | .ok doc => .ok doc
  | .error what => refused "schema" name ("invalid JSON: " ++ what)

/-- The bytes of a document; a directory can be opened, but is none. -/
def readText (dir name : String) (slot : Slot) : Except Exn Bytes :=
  match slot.content with
  | none => refused "unreadable" name ("cannot be read in " ++ dir)
  | some text =>
      if slot.regular then standard text
      else refused "unreadable" name ("cannot be read in " ++ dir)

def readJson (dir name : String) (required : Bool) (schema : Schema) : Except Exn Json := do
  let slot ← slotAt disk (join dir name)
  match slot with
  | none => if required then refused "missing_file" name ("not found in " ++ dir) else .ok .null
  | some slot => do
      let bytes ← readText dir name slot
      let doc ← parsedDocument host name bytes
      checkedDocument host name schema doc

/-!
## Fixtures
-/

/-- The facts of a fixture, and its measured links. -/
structure Fixture where
  facts : Topology.Facts
  links : Json

/-- The tree of a machine as hwloc reads it from a file. -/
def importTree (dir : String) : Except Exn Capture.Hwloc.Topology := do
  let slot ← slotAt disk (join dir "hwloc.xml")
  match slot with
  | none => refused "missing_file" "hwloc.xml" ("not found in " ++ dir)
  | some slot =>
      match slot.content with
      | some (.ok bytes) =>
          match host.importXml bytes with
          | some topo => .ok topo
          | none => refused "xml" "hwloc.xml" "hwloc could not load the topology"
      | _ => refused "xml" "hwloc.xml" "hwloc could not load the topology"

/-- The facts of a tree and of the documents beside it. -/
def factsOf (topo : Capture.Hwloc.Topology) (nvml nics : Json) : Topology.Facts :=
  let facts := Capture.Hwloc.extractHwlocFacts topo none
  { packages := facts.packages
    numaNodes := facts.numaNodes
    pci := facts.pci.map Capture.Replay.builderPci
    nvml := nvml
    nics := nics }

def fixtureSource (dir : String) : Except Exn Fixture := do
  let topo ← importTree host disk dir
  let nvml ← readJson host disk dir "nvml.json" false Schema.nvml
  let nics ← readJson host disk dir "nics.json" true Schema.nics
  let links ← readJson host disk dir "links.json" false Schema.links
  pure ⟨factsOf topo nvml nics, links⟩

/-- Only the errors of the library are told apart. -/
def ofFault {A : Type} : Except Fault A -> Except Exn A
  | .ok a => .ok a
  | .error (.topology e) => .error (.topology e)
  | .error fault => .error (.standard (host.what fault))

def ofTopology {A : Type} : Except TopologyError A -> Except Exn A
  | .ok a => .ok a
  | .error e => .error (.topology e)

def load (dir : String) : Except Exn Model := do
  let fixture ← fixtureSource host disk dir
  ofFault host (Topology.Builder.build fixture.facts)

/-- The text that is hashed for the id of a model. -/
def identityOf (model : Model) : Except Exn String :=
  ofTopology (Topology.Identity.canonicalIdentityJson host.dump model)

def topo1 (model : Model) : Except Exn String :=
  ofTopology (Topology.Identity.topo1 host.dump (fun text => host.sha256Hex (utf8 text)) model)

end Reading

/-!
## What a fixture depends on
-/

/-- The names that are read in the directory of a machine. -/
def kFixtureFiles : List String := ["hwloc.xml", "nvml.json", "nics.json", "links.json"]

section Same

variable {host : Host} {disk disk' : Disk}

theorem topo1_eq (model : Model) : topo1 host model =
    (identityOf host model).map fun text => "topo1:sha256:" ++ host.sha256Hex (utf8 text) := by
  unfold topo1 identityOf Topology.Identity.topo1
  cases Topology.Identity.canonicalIdentityJson host.dump model with
  | ok text => rfl
  | error e => rfl

end Same

end Tool
end Ostia

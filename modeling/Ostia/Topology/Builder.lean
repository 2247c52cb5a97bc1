import Ostia.Topology.Model
import Ostia.Topology.Schema

/-!
# The model builder

The builder turns the facts of a machine into nodes and edges: packages and NUMA
nodes, GPUs and NICs with their PCI devices, the bridges above them, and the
NVLinks that both ends report.

The builder reads the two documents without checks of its own.  A read of an
absent member, a value of another type or a lookup of an unknown key is a fault
of the model, apart from the errors that the builder throws.
-/

namespace Ostia
namespace Topology

open Foundation

/-- One PCI device or bridge, as far as the builder reads it. -/
structure PciFacts where
  key : String
  /-- The key of the PCI parent, empty when there is none. -/
  parentKey : String
  bridge : Bool
  pciVendor : Int
  pciDevice : Int
  /-- Zero when absent. -/
  maxGen : Int
  maxWidth : Int
  numa : List Int
deriving DecidableEq

structure Facts where
  packages : Int
  numaNodes : List Int
  pci : List PciFacts
  /-- The validated nvml.json, null when absent. -/
  nvml : Json
  nics : Json

/-- How building can end without a model. -/
inductive Fault where
  | topology (e : TopologyError)
  | absentMember (key : String)
  | wrongType (got : String)
  | unknownKey (key : String)

namespace Builder

def kSwitchGroup : String := "switch-group-0"

def packageKey (i : Nat) : String := "package-" ++ toString i

def numaKey (osIndex : Int) : String := "numa-" ++ toString osIndex

/-!
## Reading JSON
-/

/-- A member of an object that the reader takes to be there. -/
def member (j : Json) (key : String) : Except Fault Json :=
  match j with
  | .obj fields =>
      match OrdMap.lookup key fields with
      | some v => .ok v
      | none => .error (.absentMember key)
  | _ => .error (.wrongType j.typeName)

def asString : Json -> Except Fault String
  | .str s => .ok s
  | j => .error (.wrongType j.typeName)

/-- A 64-bit integer: a larger one wraps, a float is truncated. -/
def integer : Json -> Except Fault Int
  | .int n => .ok (n.bmod (2 ^ 64))
  | .float q => .ok (Int.tdiv q.num q.den)
  | j => .error (.wrongType j.typeName)

def valueOf : Json -> Except Fault Value
  | .str s => .ok (Value.str s)
  | j => do
      let n ← integer j
      pure (Value.int n)

/-- The values a loop over a document visits. -/
def elements : Json -> List Json
  | .null => []
  | .arr xs => xs
  | .obj fields => fields.map Prod.snd
  | j => [j]

def stringMember (j : Json) (key : String) : Except Fault String := do
  let v ← member j key
  asString v

def integerMember (j : Json) (key : String) : Except Fault Int := do
  let v ← member j key
  integer v

/-!
## Devices
-/

abbrev StringSet : Type := OrdMap String Unit

def setOf (keys : List String) : StringSet :=
  keys.foldl (fun s k => s.insert k ()) OrdMap.empty

/-- The PCI entries by key; a later entry replaces an earlier one of the same key. -/
def byKey (facts : Facts) : OrdMap String PciFacts :=
  facts.pci.foldl (fun m p => m.insert p.key p) OrdMap.empty

def findDevice (pci : OrdMap String PciFacts) (id file : String) :
    Except Fault PciFacts :=
  match pci.find? id with
  | some p =>
      if p.bridge then
        .error (.topology ⟨"dangling_reference", file,
          "bus ID " ++ id ++ " has no PCI device in hwloc.xml"⟩)
      else .ok p
  | none =>
      .error (.topology ⟨"dangling_reference", file,
        "bus ID " ++ id ++ " has no PCI device in hwloc.xml"⟩)

def gpuAttrs (model : String) (ccMajor ccMinor memoryBytes cudaOrdinal : Int) :
    OrdMap String Value :=
  ((((OrdMap.empty.insert "model" (Value.str model)).insert
    "cc_major" (Value.int ccMajor)).insert "cc_minor" (Value.int ccMinor)).insert
    "memory_bytes" (Value.int memoryBytes)).insert "cuda_ordinal" (Value.int cudaOrdinal)

def gpuNode (pci : OrdMap String PciFacts) (g : Json) : Except Fault Node := do
  let id ← stringMember g "bus_id"
  let _ ← findDevice pci id "nvml.json"
  let model ← stringMember g "name"
  let ccMajor ← integerMember g "cc_major"
  let ccMinor ← integerMember g "cc_minor"
  let memoryBytes ← integerMember g "memory_bytes"
  let cudaOrdinal ← integerMember g "cuda_ordinal"
  pure ⟨NodeKind.gpu, id, gpuAttrs model ccMajor ccMinor memoryBytes cudaOrdinal⟩

def nicAttrs (dev : PciFacts) (driver linkLayer : String) (numaNode : Int)
    (speed : Value) (probe : String) (rdma : Bool) : OrdMap String Value :=
  (((((((OrdMap.empty.insert "pci_vendor" (Value.int dev.pciVendor)).insert
    "pci_device" (Value.int dev.pciDevice)).insert "driver" (Value.str driver)).insert
    "link_layer" (Value.str linkLayer)).insert "numa_node" (Value.int numaNode)).insert
    "port_speed_mbps" speed).insert "rdma_probe" (Value.str probe)).insert
    "rdma" (Value.int (if rdma then 1 else 0))

def nicNode (pci : OrdMap String PciFacts) (nics : Json) (rdma : StringSet)
    (n : Json) : Except Fault Node := do
  let id ← stringMember n "bus_id"
  let dev ← findDevice pci id "nics.json"
  let driver ← stringMember n "driver"
  let linkLayer ← stringMember n "link_layer"
  let numaNode ← integerMember n "numa_node"
  let speedJson ← member n "port_speed_mbps"
  let speed ← valueOf speedJson
  let probe ← stringMember nics "rdma_probe"
  pure ⟨NodeKind.nic, id,
    nicAttrs dev driver linkLayer numaNode speed probe (rdma.contains id)⟩

/-- The GPU entries of nvml.json, none without the document. -/
def gpuEntries (facts : Facts) : Except Fault (List Json) :=
  if facts.nvml.isObject then do
    let gpus ← member facts.nvml "gpus"
    pure (elements gpus)
  else .ok []

/-!
## Bridges
-/

/-- Keep the ancestors from k on, up to one that is kept already. -/
def keepAncestors (pci : OrdMap String PciFacts) : Nat -> String -> StringSet ->
    Except Fault StringSet
  | 0, _, kept => .ok kept
  | fuel + 1, k, kept =>
      if k = "" then .ok kept
      else if kept.contains k then .ok kept
      else
        match pci.find? k with
        | some p => keepAncestors pci fuel p.parentKey (kept.insert k ())
        | none => .error (.unknownKey k)

/-- Keep the ancestors of a leaf; each step keeps a key that was not kept before. -/
def keepLeaf (pci : OrdMap String PciFacts) (kept : StringSet) (leaf : String) :
    Except Fault StringSet :=
  match pci.find? leaf with
  | some p => keepAncestors pci (pci.entries.length + 1) p.parentKey kept
  | none => .error (.unknownKey leaf)

def keepBridges (pci : OrdMap String PciFacts) (leaves : StringSet) :
    Except Fault StringSet :=
  leaves.keys.foldlM (keepLeaf pci) leaves

def bridgeNodes (kept : StringSet) (p : PciFacts) : List Node :=
  if kept.contains p.key ∧ p.bridge then [⟨NodeKind.pcieBridge, p.key, OrdMap.empty⟩]
  else []

def pcieAttrs (p : PciFacts) : OrdMap String Int :=
  let attrs := if p.maxGen ≠ 0 then OrdMap.empty.insert "gen" p.maxGen else OrdMap.empty
  if p.maxWidth ≠ 0 then attrs.insert "width" p.maxWidth else attrs

def pciEdges (kept leaves : StringSet) (p : PciFacts) : List Edge :=
  if kept.contains p.key then
    (if p.parentKey ≠ "" then [⟨EdgeKind.pcie, p.parentKey, p.key, pcieAttrs p⟩] else []) ++
      (if leaves.contains p.key then
        p.numa.map fun n => ⟨EdgeKind.numaLocal, p.key, numaKey n, OrdMap.empty⟩
      else [])
  else []

/-!
## NVLinks
-/

/-- What one side reports about one link; inactive links and unknown ends count for nothing. -/
inductive LinkReport where
  | unused
  | toSwitch
  | toGpu (remote : String)
deriving DecidableEq

/-- The value of an optional member that must be a string. -/
def stringValue (j : Json) (key fallback : String) : Except Fault String :=
  match j with
  | .obj fields =>
      match OrdMap.lookup key fields with
      | some v => asString v
      | none => .ok fallback
  | _ => .error (.wrongType j.typeName)

def isStr (j : Json) (s : String) : Bool :=
  match j with
  | .str t => t == s
  | _ => false

def readLink (gpuKeys : StringSet) (self : String) (l : Json) :
    Except Fault LinkReport := do
  let state ← member l "state"
  if !isStr state "active" then pure .unused
  else
    let remoteType ← member l "remote_type"
    if isStr remoteType "switch" then pure .toSwitch
    else if isStr remoteType "gpu" then
      let remote ← stringValue l "remote_bus_id" ""
      if gpuKeys.contains remote then pure (.toGpu remote)
      else
        .error (.topology ⟨"dangling_reference", "nvml.json",
          "nvlink remote " ++ remote ++ " of " ++ self ++ " is not a GPU in nvml.json"⟩)
    else pure .unused

/-- The reports of one GPU, nothing when it has no nvlinks array. -/
def gpuReports (gpuKeys : StringSet) (g : Json) :
    Except Fault (Option (String × List LinkReport)) := do
  let links ← member g "nvlinks"
  match links with
  | .arr ls =>
      let self ← stringMember g "bus_id"
      let reports ← ls.mapM (readLink gpuKeys self)
      pure (some (self, reports))
  | _ => pure none

structure LinkTables where
  reported : OrdMap String (OrdMap String Int)
  pairs : OrdMap (String ×ₗ String) Unit
  toSwitch : OrdMap String Int

def increment (counts : OrdMap String Int) (key : String) : OrdMap String Int :=
  counts.insert key ((counts.find? key).getD 0 + 1)

/-- Count one report of a GPU among its peers and its switch links. -/
def countReport (self : String) (counts : OrdMap String Int × OrdMap String Int) :
    LinkReport -> OrdMap String Int × OrdMap String Int
  | .unused => counts
  | .toSwitch => (counts.1, increment counts.2 self)
  | .toGpu remote => (increment counts.1 remote, counts.2)

def orderedPair (a b : String) : String ×ₗ String :=
  if b < a then toLex (b, a) else toLex (a, b)

def addReports (tables : LinkTables) (row : String × List LinkReport) : LinkTables :=
  let self := row.1
  let counts := row.2.foldl (countReport self)
    ((tables.reported.find? self).getD OrdMap.empty, tables.toSwitch)
  { reported := tables.reported.insert self counts.1
    pairs := counts.1.keys.foldl
      (fun pairs remote => pairs.insert (orderedPair self remote) ()) tables.pairs
    toSwitch := counts.2 }

/-- The count that a side reports towards the other end, nothing without reports. -/
def sideCount (reported : OrdMap String (OrdMap String Int)) (side other : String) :
    Option Int :=
  (reported.find? side).map fun peers => (peers.find? other).getD 0

/-- The weaker reporting side of a pair, -1 when no side reports. -/
def pairLinks (reported : OrdMap String (OrdMap String Int)) (a b : String) : Int :=
  [(a, b), (b, a)].foldl
    (fun links side =>
      match sideCount reported side.1 side.2 with
      | some n => if links < 0 then n else min links n
      | none => links)
    (-1)

def nvlinkEdge (a b : String) (links : Int) : Edge :=
  ⟨EdgeKind.nvlink, a, b, OrdMap.empty.insert "links" links⟩

def pairEdges (tables : LinkTables) : List Edge :=
  tables.pairs.keys.flatMap fun pair =>
    let a := (ofLex pair).1
    let b := (ofLex pair).2
    let links := pairLinks tables.reported a b
    if links > 0 then [nvlinkEdge a b links] else []

def switchEdges (tables : LinkTables) : List Edge :=
  tables.toSwitch.entries.map fun e => nvlinkEdge e.1 kSwitchGroup e.2

def switchNodes (tables : LinkTables) : List Node :=
  if tables.toSwitch.entries.isEmpty then []
  else [⟨NodeKind.switchGroup, kSwitchGroup, OrdMap.empty⟩]

def linkTables (gpuKeys : StringSet) (gpus : List Json) : Except Fault LinkTables := do
  let rows ← gpus.mapM (gpuReports gpuKeys)
  pure ((rows.filterMap id).foldl addReports ⟨OrdMap.empty, OrdMap.empty, OrdMap.empty⟩)

/-!
## The model
-/

/-- The nodes that no document names. -/
def hostNodes (facts : Facts) : List Node :=
  (List.range facts.packages.toNat).map (fun i =>
    ⟨NodeKind.package, packageKey i, OrdMap.empty⟩) ++
  facts.numaNodes.map (fun n => ⟨NodeKind.numa, numaKey n, OrdMap.empty⟩)

def build (facts : Facts) : Except Fault Model := do
  let pci := byKey facts
  let gpus ← gpuEntries facts
  let gpuNodes ← gpus.mapM (gpuNode pci)
  let rdmaJson ← member facts.nics "rdma"
  let rdmaIds ← (elements rdmaJson).mapM (fun r => stringMember r "bus_id")
  let nicsJson ← member facts.nics "nics"
  let nicNodes ← (elements nicsJson).mapM (nicNode pci facts.nics (setOf rdmaIds))
  let gpuKeys := gpuNodes.map Node.key
  let leaves := setOf (gpuKeys ++ nicNodes.map Node.key)
  let kept ← keepBridges pci leaves
  let tables ← linkTables (setOf gpuKeys) gpus
  pure
    { nodes := hostNodes facts ++ gpuNodes ++ nicNodes ++
        facts.pci.flatMap (bridgeNodes kept) ++ switchNodes tables
      edges := facts.pci.flatMap (pciEdges kept leaves) ++ pairEdges tables ++
        switchEdges tables }

end Builder
end Topology
end Ostia

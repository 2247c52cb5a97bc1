import Ostia.Capture.Decimal
import Ostia.Capture.HwlocTree
import Ostia.Foundation.Binary64
import Ostia.Foundation.OrdMap
import Ostia.Foundation.Xml

/-!
# Writing hwloc.xml

The topology rewritten to the allowlist: an explicit set of object types, their structural
attributes, the allowlisted infos, and the maximum PCIe link facts from sysfs.
-/

namespace Ostia
namespace Capture
namespace Hwloc

open BusId Foundation Hex

/-- What hwloc prints: the names of its types, and a bitmap unless that fails. -/
structure Printer where
  typeString : ObjType -> String
  asprintf : Bitmap -> Option Bytes

/-- The maximum link of a device; a zero stands for a number that is not known. -/
structure PcieMax where
  gen : Int
  width : Int
deriving DecidableEq

abbrev PcieMaxMap : Type := Bytes -> Option PcieMax

/-!
## What is kept
-/

/-- The two Ostia keys are not copied from the source. -/
def kInfoAllowlist : List Bytes :=
  ["PCIVendor", "PCIDevice", "CPUVendor", "CPUModel", "CPUFamilyNumber", "CPUModelNumber",
    "GPUVendor", "GPUModel", "Backend"].map ascii

inductive Disposition where
  | keep
  | splice
  | drop

def disposition : ObjType -> Disposition
  | .machine => .keep
  | .package => .keep
  | .die => .keep
  | .group => .keep
  | .numaNode => .keep
  | .cache _ => .keep
  | .core => .keep
  | .pu => .keep
  | .bridge => .keep
  | .pciDevice => .keep
  | .memCache => .splice
  | .osDevice => .drop
  | .misc => .drop
  | .added _ => .drop

/-!
## Texts
-/

/-- The format `%04x [%04x:%04x] [0000:0000] 00`. -/
def pciType (p : PciAttr) : Bytes :=
  buffered 48 (padded 4 p.classId.toNat ++ ascii " [" ++ padded 4 p.vendorId.toNat ++
    ascii ":" ++ padded 4 p.deviceId.toNat ++ ascii "] [0000:0000] 00")

/-- The result of an operation on doubles that does not overflow. -/
def rounded (q : ℚ) : ℚ := (Binary64.round q).getD 0

/-- The format `%.6f` of a number that is not negative. -/
def fixed6 (q : ℚ) : Bytes :=
  let n := Binary64.roundHalfEven (q * 10 ^ 6)
  let frac := toText (n % 10 ^ 6)
  toText (n / 10 ^ 6) ++ ascii "." ++ List.replicate (6 - frac.length) '0'.toUInt8 ++ frac

/-- GB/s: the rate of a lane after line coding, times the lanes. -/
def linkSpeed (max : PcieMax) : Option Bytes :=
  if max.gen < 1 ∨ max.gen > 6 ∨ max.width ≤ 0 then none
  else
    let gbps :=
      if max.gen ≤ 2 then
        let rate := rounded (5 / 2 * 2 ^ (max.gen - 1))
        rounded (rounded (rounded (rounded (rate * 8) / 10) / 8) * max.width)
      else
        let rate := rounded (8 * 2 ^ (max.gen - 3))
        rounded (rounded (rounded (rounded (rate * 128) / 130) / 8) * max.width)
    some (buffered 32 (fixed6 gbps))

def Printer.bitmap (p : Printer) (set : Bitmap) : Bytes := (p.asprintf set).getD (ascii "0x0")

/-- The format `%04x:[%02x-%02x]`. -/
def bridgePci (d : Downstream) : Bytes :=
  buffered 32 (padded 4 d.domain.toNat ++ ascii ":[" ++ padded 2 d.secondaryBus.toNat ++
    ascii "-" ++ padded 2 d.subordinateBus.toNat ++ ascii "]")

/-!
## Attributes
-/

abbrev Attrs : Type := List (Bytes × Bytes)

/-- The maximum link of an object; zeros when it has no bus ID or is not in the map. -/
def maxOf (pcieMax : PcieMaxMap) (d : Data) : PcieMax :=
  match d.busIdOf with
  | some id => (pcieMax id).getD ⟨0, 0⟩
  | none => ⟨0, 0⟩

def setAttributes (p : Printer) (name : String) (sets : Option Sets) (root : Bool)
    (allowed : Bitmap) : Attrs :=
  match sets with
  | none => []
  | some s =>
      [(ascii name, p.bitmap s.set), (ascii "complete_" ++ ascii name, p.bitmap s.complete)] ++
        if root then [(ascii "allowed_" ++ ascii name, p.bitmap allowed)] else []

def typeAttributes : Attr -> Attrs
  | .cache _ c =>
      [(ascii "cache_size", toText c.size.toNat), (ascii "depth", toText c.depth.toNat),
        (ascii "cache_linesize", toText c.linesize.toNat),
        (ascii "cache_associativity", toText c.associativity),
        (ascii "cache_type", toText c.type)]
  | .group g =>
      -- Without dont_merge a re-import may merge the group into its parent.
      [(ascii "kind", toText g.kind.toNat), (ascii "subkind", toText g.subkind.toNat)] ++
        if g.dontMerge ≠ 0 then [(ascii "dont_merge", ascii "1")] else []
  | .numaNode n =>
      if n.localMemory ≠ 0 then [(ascii "local_memory", toText n.localMemory.toNat)] else []
  | .bridge b =>
      let upstreamType := if b.upstream.isSome then "1" else "0"
      let downstreamType := if b.downstreamType = .pci then "1" else "0"
      [(ascii "bridge_type", ascii upstreamType ++ ascii "-" ++ ascii downstreamType),
        (ascii "depth", toText b.depth.toNat)] ++
        if b.downstreamType = .pci then [(ascii "bridge_pci", bridgePci b.downstream)] else []
  | _ => []

/-- The bus ID of a device, its class and its IDs, and the speed of its maximum link. -/
def pciAttributes (pcieMax : PcieMaxMap) (d : Data) : Attrs :=
  match d.busIdOf, d.attr.pci? with
  | some id, some pci =>
      [(ascii "pci_busid", id), (ascii "pci_type", pciType pci)] ++
        match linkSpeed (maxOf pcieMax d) with
        | some speed => [(ascii "pci_link_speed", speed)]
        | none => []
  | _, _ => []

/-- The attributes of an object, in the order of hwloc's own export. -/
def attributes (p : Printer) (topo : Topology) (pcieMax : PcieMaxMap) (root : Bool) (d : Data) :
    Attrs :=
  [(ascii "type", ascii (p.typeString d.attr.type))] ++
    (if d.osIndex ≠ kUnknownIndex then [(ascii "os_index", toText d.osIndex.toNat)] else []) ++
    setAttributes p "cpuset" d.cpuset root topo.allowedCpuset ++
    setAttributes p "nodeset" d.nodeset root topo.allowedNodeset ++
    [(ascii "gp_index", toText d.gpIndex.toNat)] ++ typeAttributes d.attr ++
    pciAttributes pcieMax d

/-!
## The emitter
-/

/-- The output so far, and what was left out. -/
structure Emitter where
  out : Bytes
  droppedObjects : OrdMap String Nat
  droppedInfos : Nat

namespace Emitter

def append (e : Emitter) (text : Bytes) : Emitter := { e with out := e.out ++ text }

def dropObject (e : Emitter) (type : String) : Emitter :=
  { e with droppedObjects :=
      e.droppedObjects.insert type ((e.droppedObjects.find? type).getD 0 + 1) }

/-- An element without any inside. -/
def element (e : Emitter) (depth : Nat) (tag : String) (attrs : Attrs) : Emitter :=
  e.append (Xml.spaces depth ++ ascii "<" ++ ascii tag ++ attrs.flatMap Xml.attributeText ++
    ascii "/>\n")

def pageType (depth : Nat) (e : Emitter) (page : PageType) : Emitter :=
  e.element depth "page_type"
    [(ascii "size", toText page.size.toNat), (ascii "count", toText page.count.toNat)]

def info (depth : Nat) (e : Emitter) (info : Info) : Emitter :=
  let name := info.name.getD []
  if name = ascii "OstiaPCIeMaxGen" ∨ name = ascii "OstiaPCIeMaxWidth" then
    -- It is rewritten from sysfs.
    e
  else if kInfoAllowlist.contains name = false then
    { e with droppedInfos := e.droppedInfos + 1 }
  else e.element depth "info" [(ascii "name", name), (ascii "value", info.value.getD [])]

/-- One of the two numbers from sysfs, unless it is not known. -/
def maximum (depth : Nat) (e : Emitter) (name : String) (n : Int) : Emitter :=
  if n ≠ 0 then e.element depth "info" [(ascii "name", ascii name), (ascii "value", toText n)]
  else e

/-- What an object holds before its children. -/
def ownContent (pcieMax : PcieMaxMap) (depth : Nat) (d : Data) (e : Emitter) : Emitter :=
  let e := d.attr.pageTypes.foldl (pageType depth) e
  let e := d.infos.foldl (info depth) e
  if d.busIdOf.isSome then
    let max := maxOf pcieMax d
    (e.maximum depth "OstiaPCIeMaxGen" max.gen).maximum depth "OstiaPCIeMaxWidth" max.width
  else e

end Emitter

section

variable (p : Printer) (topo : Topology) (pcieMax : PcieMaxMap)

mutual

def object (root : Bool) (depth : Nat) : Obj -> Emitter -> Emitter
  | .mk data memory normal io misc, e =>
      match disposition data.attr.type with
      | .splice =>
          objects depth misc (objects depth io (objects depth normal (objects depth memory
            (e.dropObject (p.typeString data.attr.type)))))
      | .drop => e.dropObject (p.typeString data.attr.type)
      | .keep =>
          let indent := Xml.spaces depth
          let e := e.append (indent ++ ascii "<object" ++
            (attributes p topo pcieMax root data).flatMap Xml.attributeText)
          -- The children are written apart, so that an object without any is closed at once.
          let inside := Emitter.ownContent pcieMax (depth + 1) data { e with out := [] }
          let inside := objects (depth + 1) misc (objects (depth + 1) io
            (objects (depth + 1) normal (objects (depth + 1) memory inside)))
          let body := inside.out
          let e := { inside with out := e.out }
          if body = [] then e.append (ascii "/>\n")
          else e.append (ascii ">\n" ++ body ++ indent ++ ascii "</object>\n")

/-- The siblings of a list of children. -/
def objects (depth : Nat) : List Obj -> Emitter -> Emitter
  | [], e => e
  | o :: rest, e => objects depth rest (object false depth o e)

end

/-- What stands before the root element. -/
def prologue : Bytes :=
  ascii "<?xml version=\"1.0\" encoding=\"UTF-8\"?>\n" ++
    ascii "<!DOCTYPE topology SYSTEM \"hwloc2.dtd\">\n"

def emitted : Emitter :=
  (object p topo pcieMax true 1 topo.root
    ⟨prologue ++ ascii "<topology version=\"2.0\">\n", OrdMap.empty, 0⟩).append
    (ascii "</topology>\n")

def Emitter.report (e : Emitter) : List Bytes :=
  (e.droppedObjects.entries.map fun entry =>
    ascii "hwloc.xml: dropped " ++ toText entry.2 ++ ascii " " ++ ascii entry.1 ++
      ascii " object(s)") ++
    if e.droppedInfos > 0 then
      [ascii "hwloc.xml: dropped " ++ toText e.droppedInfos ++
        ascii " info key(s) outside the allowlist"]
    else []

/-- How many objects of a type are allowed, if not all of them are. -/
def restriction (kind noun : String) (type : ObjType) (allowed : Bitmap) : List Bytes :=
  let found := topo.ofType type
  let count := (found.filter fun o => allowed.indexes.contains o.data.osIndex.toNat).length
  if count < found.length then
    [ascii kind ++ ascii " restricted: " ++ toText count ++ ascii " of " ++
      toText found.length ++ ascii " " ++ ascii noun ++ ascii " allowed"]
  else []

def reportRestriction : List Bytes :=
  restriction topo "cpuset" "PUs" .pu topo.allowedCpuset ++
    restriction topo "nodeset" "NUMA nodes" .numaNode topo.allowedNodeset

/-- The text of hwloc.xml, and the lines of the diagnostics. -/
def emitXml : Bytes × List Bytes :=
  let e := emitted p topo pcieMax
  (e.out, e.report ++ reportRestriction topo)

end

end Hwloc
end Capture
end Ostia

import Ostia.Capture.EmitXml

/-!
# Facts of a topology

The counts, NUMA nodes and PCI devices of a topology, with the link maxima from sysfs while it
is live, and from its infos when it was read back.
-/

namespace Ostia
namespace Capture
namespace Hwloc

open BusId Decimal Foundation Hex

/-- One PCI device or bridge. -/
structure PciFacts where
  bridge : Bool
  key : Bytes
  /-- Empty for a host bridge. -/
  busId : Bytes
  pciClass : Nat
  pciVendor : Nat
  pciDevice : Nat
  maxGen : Int
  maxWidth : Int
  /-- The key of the PCI parent, empty when there is none. -/
  parentKey : Bytes
  numa : List Nat

structure Facts where
  packages : Nat
  pus : Nat
  numaNodes : List Int
  pci : List PciFacts

def hostBridgeKey (domain bus : Nat) : Bytes :=
  buffered 40 (ascii "hostbridge-" ++ padded 4 domain ++ ascii ":" ++ padded 2 bus)

/-- The key of a bridge or a PCI device. -/
def Data.keyOf (d : Data) : Bytes :=
  match d.busIdOf with
  | some id => id
  | none =>
      match d.attr with
      | .bridge b => hostBridgeKey b.downstream.domain.toNat b.downstream.secondaryBus.toNat
      | _ => []

/-- The number of the first info of a name. -/
def infoInt (infos : List Info) (name : String) : Int :=
  match infos.find? fun i => i.name = some (ascii name) with
  | some i =>
      match i.value with
      | some value => atoi value
      | none => 0
  | none => 0

/-- The maximum link, from the map when there is one, else from the infos. -/
def linkMaximum (pcieMax : Option PcieMaxMap) (d : Data) : PcieMax :=
  match pcieMax with
  | none => ⟨infoInt d.infos "OstiaPCIeMaxGen", infoInt d.infos "OstiaPCIeMaxWidth"⟩
  | some max => maxOf max d

def Place.parentKey (p : Place) : Bytes :=
  match p.above.head? with
  | some parent => if parent.isPci then parent.keyOf else []
  | none => []

/-- The NUMA nodes of the nearest object that has a cpuset. -/
def Place.numa (p : Place) : List Nat :=
  match (p.data :: p.above).find? fun d => d.cpuset.isSome with
  | some ancestor =>
      match ancestor.nodeset with
      | some sets => sets.set.indexes
      | none => []
  | none => []

def pciFacts (pcieMax : Option PcieMaxMap) (p : Place) : PciFacts where
  bridge := p.type = .bridge
  key := p.data.keyOf
  busId := p.data.busIdOf.getD []
  pciClass := (p.data.attr.pci?.map fun pci => pci.classId.toNat).getD 0
  pciVendor := (p.data.attr.pci?.map fun pci => pci.vendorId.toNat).getD 0
  pciDevice := (p.data.attr.pci?.map fun pci => pci.deviceId.toNat).getD 0
  maxGen := (linkMaximum pcieMax p.data).gen
  maxWidth := (linkMaximum pcieMax p.data).width
  parentKey := p.parentKey
  numa := p.numa

def extractHwlocFacts (topo : Topology) (pcieMax : Option PcieMaxMap) : Facts where
  packages := (topo.ofType .package).length
  pus := (topo.ofType .pu).length
  numaNodes := ((topo.ofType .numaNode).map fun p => p.data.osIndex.toInt32.toInt).mergeSort
  pci := (topo.ofType .bridge).map (pciFacts pcieMax) ++
    (topo.ofType .pciDevice).map (pciFacts pcieMax)

end Hwloc
end Capture
end Ostia

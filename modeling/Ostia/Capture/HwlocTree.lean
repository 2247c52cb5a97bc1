import Ostia.Capture.Sources

/-!
# The object tree of hwloc

An object has its type together with the attributes of that type, its sets, its infos and its
four lists of children.  Objects of one type are enumerated depth first.
-/

namespace Ostia
namespace Capture
namespace Hwloc

open BusId Sources

/-!
## Objects
-/

inductive CacheLevel where
  | l1
  | l2
  | l3
  | l4
  | l5
  | l1Instruction
  | l2Instruction
  | l3Instruction
deriving DecidableEq

/-- The types that hwloc names, and any type that a newer one adds. -/
inductive ObjType where
  | machine
  | package
  | die
  | core
  | pu
  | cache (level : CacheLevel)
  | group
  | numaNode
  | memCache
  | bridge
  | pciDevice
  | osDevice
  | misc
  | added (n : Nat)
deriving DecidableEq

/-- A finite set of indexes, in their order. -/
structure Bitmap where
  indexes : List Nat
  increasing : indexes.Pairwise (· < ·)

structure PciAttr extends HwlocPci where
  deviceId : UInt16

structure CacheAttr where
  size : UInt64
  depth : UInt32
  linesize : UInt32
  associativity : Int
  type : Nat

structure GroupAttr where
  kind : UInt32
  subkind : UInt32
  dontMerge : UInt8

structure PageType where
  size : UInt64
  count : UInt64

structure NumaAttr where
  localMemory : UInt64
  pageTypes : List PageType

inductive BridgeType where
  | host
  | pci
deriving DecidableEq

/-- The downstream side of a bridge. -/
structure Downstream where
  domain : UInt32
  secondaryBus : UInt8
  subordinateBus : UInt8
deriving DecidableEq

structure BridgeAttr where
  /-- The PCI device of the upstream side; the upstream side of a host bridge is none. -/
  upstream : Option PciAttr
  downstreamType : BridgeType
  downstream : Downstream
  depth : UInt32

/-- The attributes of an object, with its type. -/
inductive Attr where
  | machine
  | package
  | die
  | core
  | pu
  | cache (level : CacheLevel) (cache : CacheAttr)
  | group (group : GroupAttr)
  | numaNode (numanode : NumaAttr)
  | memCache
  | bridge (bridge : BridgeAttr)
  | pciDevice (pcidev : PciAttr)
  | osDevice
  | misc
  | added (n : Nat)

def Attr.type : Attr -> ObjType
  | .machine => .machine
  | .package => .package
  | .die => .die
  | .core => .core
  | .pu => .pu
  | .cache level _ => .cache level
  | .group _ => .group
  | .numaNode _ => .numaNode
  | .memCache => .memCache
  | .bridge _ => .bridge
  | .pciDevice _ => .pciDevice
  | .osDevice => .osDevice
  | .misc => .misc
  | .added n => .added n

def Attr.pageTypes : Attr -> List PageType
  | .numaNode n => n.pageTypes
  | _ => []

/-- A set and the complete set, which an object has together or not at all. -/
structure Sets where
  set : Bitmap
  complete : Bitmap

/-- A name and a value; hwloc may leave either out. -/
structure Info where
  name : Option Bytes
  value : Option Bytes

structure Data where
  attr : Attr
  osIndex : UInt32
  cpuset : Option Sets
  nodeset : Option Sets
  gpIndex : UInt64
  infos : List Info

inductive Obj where
  | mk (data : Data) (memory normal io misc : List Obj)

structure Topology where
  root : Obj
  allowedCpuset : Bitmap
  allowedNodeset : Bitmap

/-- The index of an object that has none. -/
def kUnknownIndex : UInt32 := 0xffffffff

namespace Obj

def data : Obj -> Data
  | mk data _ _ _ _ => data

def type (o : Obj) : ObjType := o.data.attr.type

end Obj

/-- The bus ID of a PCI device or of the upstream side of a PCI bridge. -/
def Attr.pci? : Attr -> Option PciAttr
  | .pciDevice p => some p
  | .bridge b => b.upstream
  | _ => none

def Data.isPci (d : Data) : Bool := d.attr.type = .bridge || d.attr.type = .pciDevice

def Data.busIdOf (d : Data) : Option Bytes :=
  match d.attr.pci? with
  | some p => some (buffered 32 p.id.formatted)
  | none => none

/-!
## Enumerations
-/

/-- An object in a tree: what it is, and what the objects above it are, the nearest first. -/
structure Place where
  data : Data
  above : List Data

def Place.type (p : Place) : ObjType := p.data.attr.type

mutual

/-- The objects of a tree, depth first. -/
def Obj.places (above : List Data) : Obj -> List Place
  | .mk data memory normal io misc =>
      ⟨data, above⟩ ::
        (Obj.placesOf (data :: above) memory ++ Obj.placesOf (data :: above) normal ++
          Obj.placesOf (data :: above) io ++ Obj.placesOf (data :: above) misc)

def Obj.placesOf (above : List Data) : List Obj -> List Place
  | [] => []
  | o :: rest => Obj.places above o ++ Obj.placesOf above rest

end

def Topology.places (topo : Topology) : List Place := topo.root.places []

/-- The objects of one type, in the order of hwloc. -/
def Topology.ofType (topo : Topology) (type : ObjType) : List Place :=
  topo.places.filter fun p => p.type = type

/-!
## The shape of a tree
-/

inductive Kind where
  | normal
  | memory
  | io
  | misc
deriving DecidableEq

/-- The list of children to which the objects of a type belong; a type that was added may belong
to any. -/
def ObjType.kind : ObjType -> Option Kind
  | .numaNode => some .memory
  | .memCache => some .memory
  | .bridge => some .io
  | .pciDevice => some .io
  | .osDevice => some .io
  | .misc => some .misc
  | .added _ => none
  | _ => some .normal

def OfKind (kind : Kind) (os : List Obj) : Prop :=
  forall o, o ∈ os -> o.type.kind = some kind ∨ o.type.kind = none

mutual

/-- The lists of children hold objects of their kinds, memory objects and I/O objects have no
normal children, and what is not set in a new object is zero. -/
def Obj.Shaped : Obj -> Prop
  | .mk data memory normal io misc =>
      (OfKind .memory memory ∧ OfKind .normal normal ∧ OfKind .io io ∧ OfKind .misc misc) ∧
        (data.attr.type.kind = some .memory -> normal = [] ∧ io = []) ∧
        (data.attr.type.kind = some .io -> memory = [] ∧ normal = []) ∧
        (forall b, data.attr = .bridge b -> b.downstreamType ≠ .pci -> b.downstream = ⟨0, 0, 0⟩) ∧
        Obj.ShapedOf memory ∧ Obj.ShapedOf normal ∧ Obj.ShapedOf io ∧ Obj.ShapedOf misc

def Obj.ShapedOf : List Obj -> Prop
  | [] => True
  | o :: rest => Obj.Shaped o ∧ Obj.ShapedOf rest

end

structure Topology.Shaped (topo : Topology) : Prop where
  machine : topo.root.type = .machine
  root : topo.root.Shaped

end Hwloc
end Capture
end Ostia

import Mathlib.Data.String.Basic
import Mathlib.Data.Prod.Lex
import Ostia.Foundation.Sorting
import Ostia.Topology.Json

/-!
# The topology model

Nodes and edges of a machine's topology, and their golden-file form: nodes sorted
by key, edges by kind, source and target, every object with sorted keys.
-/

namespace Ostia
namespace Topology

open Foundation

inductive NodeKind where
  | package
  | numa
  | pcieBridge
  | gpu
  | switchGroup
  | nic
deriving DecidableEq, Repr

inductive EdgeKind where
  | pcie
  | nvlink
  | numaLocal
deriving DecidableEq, Repr

/-- An attribute: integers and strings only, so that no golden file depends on a float printer. -/
inductive Value where
  | int (n : Int)
  | str (s : String)
deriving DecidableEq, Repr

structure Node where
  kind : NodeKind
  key : String
  attrs : OrdMap String Value
deriving DecidableEq

structure Edge where
  kind : EdgeKind
  fromKey : String
  toKey : String
  attrs : OrdMap String Int
deriving DecidableEq

structure Model where
  nodes : List Node
  edges : List Edge
deriving DecidableEq

/-- An error of the topology library: a stable code, the file it is about and a text. -/
structure TopologyError where
  code : String
  file : String
  detail : String
deriving DecidableEq, Repr

/-- The text of the exception. -/
def TopologyError.what (e : TopologyError) : String :=
  if e.file = "" then e.detail ++ " (" ++ e.code ++ ")"
  else e.file ++ ": " ++ e.detail ++ " (" ++ e.code ++ ")"

namespace NodeKind

def toString : NodeKind -> String
  | package => "package"
  | numa => "numa"
  | pcieBridge => "pcie_bridge"
  | gpu => "gpu"
  | switchGroup => "switch_group"
  | nic => "nic"

theorem toString_injective : Function.Injective toString := by
  intro a b h
  cases a <;> cases b <;> first | rfl | exact absurd h (by decide)

end NodeKind

namespace EdgeKind

def toString : EdgeKind -> String
  | pcie => "pcie"
  | nvlink => "nvlink"
  | numaLocal => "numa_local"

theorem toString_injective : Function.Injective toString := by
  intro a b h
  cases a <;> cases b <;> first | rfl | exact absurd h (by decide)

end EdgeKind

namespace Value

def toJson : Value -> Json
  | int n => Json.int n
  | str s => Json.str s

theorem toJson_injective : Function.Injective toJson := by
  intro a b h
  cases a <;> cases b <;> simp_all [toJson]

end Value

/-!
## The golden-file form
-/

def nodeJson (node : Node) : Json :=
  let structural :=
    (OrdMap.empty.insert "key" (Json.str node.key)).insert "kind"
      (Json.str node.kind.toString)
  Json.ofMap
    (node.attrs.entries.foldl (fun j attr => j.insert attr.1 attr.2.toJson)
      structural)

def edgeJson (edge : Edge) : Json :=
  let structural :=
    ((OrdMap.empty.insert "kind" (Json.str edge.kind.toString)).insert "from"
      (Json.str edge.fromKey)).insert "to" (Json.str edge.toKey)
  Json.ofMap
    (edge.attrs.entries.foldl (fun j attr => j.insert attr.1 (Json.int attr.2))
      structural)

/-- Edges order by the name of their kind, not by its place in the enumeration. -/
def edgeSortKey (edge : Edge) : String ×ₗ String ×ₗ String :=
  toLex (edge.kind.toString, toLex (edge.fromKey, edge.toKey))

def toJson (model : Model) : Json :=
  let nodes := Sorting.stableSort Node.key model.nodes
  let edges := Sorting.stableSort edgeSortKey model.edges
  Json.obj [("edges", Json.arr (edges.map edgeJson)),
    ("nodes", Json.arr (nodes.map nodeJson))]

/-- The golden file: the indented dump of the document and a newline. -/
def canonicalDump (dumpIndented : Json -> String) (model : Model) : String :=
  dumpIndented (toJson model) ++ "\n"

end Topology
end Ostia

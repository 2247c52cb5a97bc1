import Ostia.Capture.Nvml
import Ostia.Capture.Sources
import Ostia.Topology.Json

/-!
# The documents of a capture

nvml.json and nics.json as JSON values.  A byte of a text is a character of its string.
-/

namespace Ostia
namespace Capture
namespace Writers

open Nvml Sources
open Ostia.Topology (Json)

/-- The characters of some bytes. -/
def characters (text : Bytes) : String := String.ofList (text.map fun c => Char.ofNat c.toNat)

def str (text : Bytes) : Json := .str (characters text)

def linkLayer (text : Bytes) : Bytes :=
  let text := Bytes.lowered text
  if text ≠ ascii "ethernet" ∧ text ≠ ascii "infiniband" then ascii "unknown" else text

def speedValue : Int ⊕ Bytes -> Json
  | .inl n => .int n
  | .inr text => str text

/-- A link; the other end is left out when it is not known. -/
def linkJson (link : NvLink) : Json :=
  .obj ([("link", .int link.link)] ++
    (link.remoteBusId.toList.map fun id => ("remote_bus_id", str id)) ++
    [("remote_type", str link.remoteType), ("state", str link.state),
      ("version", .int link.version)])

def linksJson : Option (List NvLink) -> Json
  | some links => .arr (links.map linkJson)
  | none => .str "not_supported"

def gpuJson (gpu : Gpu) (ordinal : Nat) : Json :=
  .obj [("bus_id", str gpu.busId), ("cc_major", .int gpu.ccMajor),
    ("cc_minor", .int gpu.ccMinor), ("cuda_ordinal", .int ordinal),
    ("memory_bytes", .int gpu.memoryBytes), ("name", str gpu.name),
    ("nvlinks", linksJson gpu.nvlinks)]

def p2pJson (p : P2p) : Json :=
  .obj [("a", str p.a), ("atomics", str p.atomics), ("b", str p.b), ("nvlink", str p.nvlink),
    ("read", str p.read), ("write", str p.write)]

/-- The GPUs are written in the order of their bus IDs, and the ordinal is that rank. -/
def gpusJson (gpus : List Gpu) : List Json :=
  (gpus.mergeSort (upTo Gpu.busId)).mapIdx fun ordinal gpu => gpuJson gpu ordinal

def nvmlJson (facts : NvmlFacts) : Json :=
  let p2p := facts.p2p.mergeSort fun x y =>
    decide (x.a < y.a) || (decide (x.a = y.a) && !decide (y.b < x.b))
  .obj [("gpus", .arr (gpusJson facts.gpus)), ("p2p", .arr (p2p.map p2pJson)),
    ("schema", .int 1)]

def nicJson (n : NicFacts) : Json :=
  .obj [("bus_id", str n.busId), ("driver", str n.driver),
    ("link_layer", str (linkLayer n.linkLayer)), ("max_pcie_gen", .int n.maxGen),
    ("max_pcie_width", .int n.maxWidth), ("numa_node", .int n.numa),
    ("port_speed_mbps", speedValue n.portSpeedMbps)]

def portJson (p : VerbsPort) : Json :=
  .obj [("active_speed", speedValue p.activeSpeed), ("active_width", speedValue p.activeWidth),
    ("bus_id", str p.busId), ("device", str p.device), ("gpudirect", str p.gpudirect),
    ("link_layer", str (linkLayer p.linkLayer)), ("port", .int p.port), ("state", str p.state)]

/-- Order by bus ID, then by device, then by port. -/
def portUpTo (x y : VerbsPort) : Bool :=
  decide (x.busId < y.busId) || (decide (x.busId = y.busId) &&
    (decide (x.device < y.device) || (decide (x.device = y.device) && decide (x.port ≤ y.port))))

def rdmaProbe (ports : Option (List VerbsPort)) : String :=
  if ports.isSome then "ok" else "unavailable"

def nicsJson (nics : List NicFacts) (ports : Option (List VerbsPort)) : Json :=
  .obj [("nics", .arr ((nics.mergeSort (upTo NicFacts.busId)).map nicJson)),
    ("rdma", .arr (((ports.getD []).mergeSort portUpTo).map portJson)),
    ("rdma_probe", .str (rdmaProbe ports)), ("schema", .int 1)]

end Writers
end Capture
end Ostia

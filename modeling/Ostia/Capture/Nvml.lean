import Ostia.Capture.BusId
import Ostia.Capture.Decimal

/-!
# The NVML query

What the tool asks libnvidia-ml about the GPUs and their links.  A symbol that the driver does
not export is absent; the others answer each call with a return code and a value.
-/

namespace Ostia
namespace Capture
namespace Nvml

open BusId

/-!
## Answers
-/

inductive Return where
  | success
  | invalidArgument
  | notSupported
  | other
deriving DecidableEq

/-- The device at the other end of a link. -/
inductive DeviceType where
  | gpu
  | switch
  | other
deriving DecidableEq

inductive P2pStatus where
  | ok
  | unknown
  | other

inductive P2pCaps where
  | read
  | write
  | nvlink
  | atomics

/-- The answers of the library about the GPU of an index and its links. -/
structure Library where
  hasRequired : Bool
  init : Return
  count : Return × Nat
  handle : Nat -> Return
  /-- The text of a bus ID in its buffer. -/
  pci : Nat -> Return × Bytes
  name : Option (Nat -> Return × Bytes)
  cc : Option (Nat -> Return × Int × Int)
  memory : Option (Nat -> Return × UInt64)
  linkState : Option (Nat -> Nat -> Return × Bool)
  linkVersion : Option (Nat -> Nat -> Return × UInt32)
  linkType : Option (Nat -> Nat -> Return × DeviceType)
  linkPci : Option (Nat -> Nat -> Return × Bytes)
  p2p : Option (Nat -> Nat -> P2pCaps -> Return × P2pStatus)
  uuid : Option (Nat -> Return × Bytes)
  serial : Option (Nat -> Return × Bytes)
  board : Option (Nat -> Return × UInt32)
  driver : Option (Return × Bytes)
  cuda : Option (Return × Int)

/-!
## Facts
-/

structure NvLink where
  link : Nat
  state : Bytes
  version : Int
  remoteType : Bytes
  remoteBusId : Option Bytes

structure P2p where
  a : Bytes
  b : Bytes
  read : Bytes
  write : Bytes
  nvlink : Bytes
  atomics : Bytes

structure Gpu where
  busId : Bytes
  name : Bytes
  ccMajor : Int
  ccMinor : Int
  memoryBytes : Int
  /-- None when NVML cannot report links. -/
  nvlinks : Option (List NvLink)
  uuid : Bytes
  serial : Bytes
  boardId : Bytes

structure NvmlFacts where
  gpus : List Gpu
  p2p : List P2p
  driver : Bytes
  cuda : Bytes

/-!
## The query
-/

def kNvmlMaxLinks : Nat := 18

/-- The text in a buffer, up to a zero or the end of the buffer. -/
def textOf (size : Nat) (buf : Bytes) : Bytes := (buf.take size).takeWhile fun c => c != 0

def busId (buf : Bytes) : Except String Bytes := normalizeBusId (textOf 32 buf)

/-- The value of a call that is there and succeeds. -/
def answer {A : Type} (call : Option (Return × A)) : Option A :=
  match call with
  | some (.success, a) => some a
  | _ => none

def p2pValue (rc : Return) (status : P2pStatus) : Bytes :=
  match rc, status with
  | .notSupported, _ => ascii "not_supported"
  | .success, .unknown => ascii "unknown"
  | .success, .ok => ascii "ok"
  | .success, .other => ascii "not_supported"
  | _, _ => ascii "unknown"

def remoteType : DeviceType -> Bytes
  | .gpu => ascii "gpu"
  | .switch => ascii "switch"
  | .other => ascii "unknown"

section

variable (lib : Library)

/-- The bus ID at the other end: none when it is not read, an error when it cannot be written. -/
def remote (i l : Nat) (type : Bytes) : Option (Except String Bytes) :=
  if type = ascii "unknown" then none
  else (answer (lib.linkPci.map fun call => call i l)).map busId

def linkOf (i l : Nat) (rc : Return) (active : Bool) : NvLink :=
  let type := ((answer (lib.linkType.map fun call => call i l)).map remoteType).getD
    (ascii "unknown")
  { link := l
    state :=
      if rc = .notSupported then ascii "not_supported"
      else if rc = .success ∧ active = true then ascii "active"
      else ascii "inactive"
    version := ((answer (lib.linkVersion.map fun call => call i l)).map fun version =>
      version.toInt32.toInt).getD 0
    remoteType := type
    remoteBusId := (remote lib i l type).bind Except.toOption }

/-- What the links of a GPU add to the lines about all of them. -/
structure Scan (A : Type) where
  value : A
  unreadable : Nat
  droppedRemotes : Nat

/-- Links are probed until NVML knows no more; none when it cannot report them at all. -/
def probeLinks (state : Nat -> Nat -> Return × Bool) (i : Nat) :
    List Nat -> Scan (List NvLink) -> Scan (Option (List NvLink))
  | [], s => { s with value := some s.value }
  | l :: rest, s =>
      let answer := state i l
      if answer.1 = .invalidArgument then { s with value := some s.value }
      else if answer.1 = .notSupported ∧ l = 0 then { s with value := none }
      else
        let link := linkOf lib i l answer.1 answer.2
        let unreadable := if answer.1 ≠ .success ∧ answer.1 ≠ .notSupported then 1 else 0
        let dropped :=
          match remote lib i l link.remoteType with
          | some (.error _) => 1
          | _ => 0
        probeLinks state i rest
          ⟨s.value ++ [link], s.unreadable + unreadable, s.droppedRemotes + dropped⟩

def nvlinks (i : Nat) : Scan (Option (List NvLink)) :=
  match lib.linkState with
  | none => ⟨none, 0, 0⟩
  | some state => probeLinks lib state i (List.range kNvmlMaxLinks) ⟨[], 0, 0⟩

def gpu (i : Nat) (bus : Bytes) : Scan Gpu :=
  let links := nvlinks lib i
  let cc := (answer (lib.cc.map fun call => call i)).getD (0, 0)
  { links with
    value :=
      { busId := bus
        name := ((answer (lib.name.map fun call => call i)).map (textOf 96)).getD
          (ascii "unknown")
        ccMajor := cc.1
        ccMinor := cc.2
        memoryBytes := ((answer (lib.memory.map fun call => call i)).map fun total =>
          total.toInt64.toInt).getD 0
        nvlinks := links.value
        uuid := ((answer (lib.uuid.map fun call => call i)).map (textOf 96)).getD []
        serial := ((answer (lib.serial.map fun call => call i)).map (textOf 30)).getD []
        boardId := ((answer (lib.board.map fun call => call i)).map fun board =>
          toText board.toNat).getD [] } }

/-- A reason why there are no facts, and lines about it. -/
abbrev Failure : Type := Bytes × List Bytes

/-- One GPU.  Without a bus ID it cannot be joined to hwloc, so that all facts are withheld. -/
def device (i : Nat) : Except Failure (Scan Gpu) :=
  if lib.handle i ≠ .success then .error (ascii "nvml_device_handle", [])
  else if (lib.pci i).1 ≠ .success then .error (ascii "nvml_pci_info", [])
  else
    match busId (lib.pci i).2 with
    | .error reason =>
        .error (ascii reason,
          [ascii "nvml: a GPU bus ID cannot be written (" ++ ascii reason ++ ascii ")"])
    | .ok bus => .ok (gpu lib i bus)

/-- All pairs of a list, in its order. -/
def pairs {A : Type} : List A -> List (A × A)
  | [] => []
  | a :: rest => rest.map (fun b => (a, b)) ++ pairs rest

def p2pOf (a b : Bytes × Nat) : P2p :=
  let status := fun caps =>
    match lib.p2p with
    | none => ascii "unknown"
    | some call => p2pValue (call a.2 b.2 caps).1 (call a.2 b.2 caps).2
  ⟨a.1, b.1, status .read, status .write, status .nvlink, status .atomics⟩

def driverVersion : Bytes := ((answer lib.driver).map (textOf 80)).getD []

def cudaVersion : Bytes :=
  match answer lib.cuda with
  | some version =>
      if version ≤ 0 then []
      else toText (version / 1000) ++ ascii "." ++ toText (version % 1000 / 10)
  | none => []

/-- Order by bus ID. -/
def upTo {A : Type} (busId : A -> Bytes) (x y : A) : Bool := !decide (busId y < busId x)

def total {A : Type} (count : Scan A -> Nat) (scans : List (Scan A)) : Nat :=
  scans.foldl (fun n scan => n + count scan) 0

def lineIf (n : Nat) (line : String) : List Bytes :=
  if n > 0 then [ascii "nvml: " ++ toText n ++ ascii line] else []

/-- The facts of all GPUs, or a reason why there are none, and the lines of the diagnostics. -/
def query : Except Bytes NvmlFacts × List Bytes :=
  if lib.hasRequired = false then
    (.error (ascii "nvml_symbols"),
      [ascii "nvml: libnvidia-ml.so.1 lacks a required entry point"])
  else if lib.init ≠ .success then (.error (ascii "nvml_init"), [])
  else if lib.count.1 ≠ .success then (.error (ascii "nvml_device_count"), [])
  else
    match (List.range lib.count.2).mapM (device lib) with
    | .error failure => (.error failure.1, failure.2)
    | .ok scans =>
        let gpus := scans.map Scan.value
        let devices := ((gpus.map Gpu.busId).zip (List.range lib.count.2)).mergeSort (upTo Prod.fst)
        (.ok
          { gpus := gpus
            p2p := (pairs devices).map fun pair => p2pOf lib pair.1 pair.2
            driver := driverVersion lib
            cuda := cudaVersion lib },
          lineIf (total Scan.unreadable scans)
              " NVLink state query(ies) failed; those links are recorded inactive" ++
            lineIf (total Scan.droppedRemotes scans)
              " NVLink remote bus ID(s) cannot be written and are omitted")

end

end Nvml
end Capture
end Ostia

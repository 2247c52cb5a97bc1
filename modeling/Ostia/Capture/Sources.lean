import Ostia.Capture.BusId

/-!
# The sources of a capture

What the capture reads once before it writes: the PCI devices of hwloc, the answers of NVML and
verbs, and the NICs of sysfs.  Ports and NICs whose bus ID cannot be written, or is none of
hwloc's, are left out.
-/

namespace Ostia
namespace Capture
namespace Sources

open BusId

/-!
## Devices of hwloc
-/

structure HwlocPci where
  domain : UInt32
  bus : UInt8
  dev : UInt8
  func : UInt8
  vendorId : UInt16
  classId : UInt16

inductive HwlocObj where
  | pciDevice (pci : HwlocPci)
  /-- The upstream side of a host bridge is no PCI device. -/
  | bridge (upstream : Option HwlocPci)
  | other

def HwlocPci.id (p : HwlocPci) : BusId :=
  ⟨p.domain.toNat, p.bus.toNat, p.dev.toNat, p.func.toNat⟩

def busIdOf : HwlocObj -> Option Bytes
  | .pciDevice p => some (buffered 32 p.id.formatted)
  | .bridge (some p) => some (buffered 32 p.id.formatted)
  | .bridge none => none
  | .other => none

/-!
## Ports and NICs
-/

structure VerbsPort where
  device : Bytes
  busId : Bytes
  state : Bytes
  linkLayer : Bytes
  gpudirect : Bytes
  port : Int
  activeSpeed : Int ⊕ Bytes
  activeWidth : Int ⊕ Bytes

structure NicFacts where
  busId : Bytes
  driver : Bytes
  linkLayer : Bytes
  maxGen : Int
  maxWidth : Int
  numa : Int
  portSpeedMbps : Int ⊕ Bytes

structure MissingFile where
  file : Bytes
  reason : Bytes

def ok {E A : Type} : Except E A -> Bool
  | .ok _ => true
  | .error _ => false

/-- Drop the items that fail a test; the number of them is reported. -/
def drop {A : Type} (bad : A -> Bool) (items : List A) : List A × Nat :=
  (items.filter fun item => !bad item, (items.filter bad).length)

/-- A bus ID nics.json cannot hold drops its NIC or port. -/
def dropUnwritableBusIds {A : Type} (busId : A -> Bytes) (items : List A) : List A × Nat :=
  drop (fun item => !ok (normalizeBusId (busId item))) items

/-- What hwloc does not list would be a dangling reference in the model. -/
def dropUnlisted {A : Type} (hwlocDevices : List Bytes) (busId : A -> Bytes) (items : List A) :
    List A × Nat :=
  drop (fun item => !hwlocDevices.contains (busId item)) items

/-!
## Reading the sources
-/

/-- What the capture is given: the devices of hwloc in their order, the answers of NVML and of
verbs if these are there, and what is read from sysfs.  The times stand for the four phases. -/
structure Inputs (N P : Type) where
  pcidevs : List HwlocPci
  nvml : Option (Except Bytes N)
  gpus : N -> Nat
  verbs : Option (Option (List VerbsPort))
  infiniband : List Bytes
  scanNics : List VerbsPort -> List NicFacts × List Bytes
  pcieMax : P
  pcieMaxSize : Nat
  msSince : Nat -> Bytes

structure Read (N P : Type) where
  pcieMax : P
  hwlocDevices : List Bytes
  nvmlRequired : Bool
  nvml : Option N
  nvmlMissing : Option MissingFile
  ports : Option (List VerbsPort)
  nics : List NicFacts
  hiddenRdma : Nat

def countOf (n : Nat) (noun : String) : Bytes := ascii (toString n) ++ ascii " " ++ ascii noun

/-- A line that is added when something was left out. -/
def noteIf (n : Nat) (start noun : String) : List Bytes :=
  if n > 0 then [ascii start ++ countOf n noun] else []

def kVendorNvidia : UInt16 := 0x10de

def kClassDisplay : UInt16 := 0x03

/-- The bus IDs of hwloc's devices, each once. -/
def hwlocDevices (pcidevs : List HwlocPci) : List Bytes :=
  (pcidevs.filterMap fun p => busIdOf (.pciDevice p)).dedup

def nvmlRequired (pcidevs : List HwlocPci) : Bool :=
  pcidevs.any fun p => p.vendorId == kVendorNvidia && p.classId >>> 8 == kClassDisplay

variable {N P : Type}

/-- The answer of NVML, or the file that will be missing, and the lines about it. -/
def readNvml (i : Inputs N P) : Option N × Option MissingFile × List Bytes :=
  if !nvmlRequired i.pcidevs then
    (none, none, [ascii "nvml: not queried (hwloc lists no NVIDIA display device)"])
  else
    match i.nvml with
    | none =>
        (none, some ⟨ascii "nvml.json", ascii "nvml_unavailable"⟩,
          [ascii "nvml: library unavailable"])
    | some (.ok facts) =>
        (some facts, none,
          [ascii "nvml: " ++ countOf (i.gpus facts) "GPU(s) in " ++ i.msSince 0])
    | some (.error reason) =>
        (none, some ⟨ascii "nvml.json", reason⟩,
          [ascii "nvml: query failed (" ++ reason ++ ascii ") in " ++ i.msSince 0])

/-- The ports that can be written, the InfiniBand devices that verbs does not show, and lines. -/
def readPorts (i : Inputs N P) : Option (List VerbsPort) × Nat × List Bytes :=
  match i.verbs.join with
  | none => (none, 0, [ascii "verbs: probe unavailable"])
  | some found =>
      let writable := dropUnwritableBusIds VerbsPort.busId found
      let listed := dropUnlisted (hwlocDevices i.pcidevs) VerbsPort.busId writable.1
      let hidden := if listed.1 = [] then i.infiniband.length else 0
      (some listed.1, hidden,
        noteIf writable.2 "verbs: skipped " "port(s) whose bus ID nics.json cannot hold" ++
          noteIf listed.2 "verbs: skipped " "port(s) whose bus ID hwloc does not list" ++
          [ascii "verbs: " ++ countOf listed.1.length "port(s) in " ++ i.msSince 1] ++
          if hidden > 0 then
            [ascii "verbs: sysfs shows " ++ countOf hidden "InfiniBand device(s)" ++
              ascii " but ibverbs listed none"]
          else [])

/-- The NICs that can be written, and lines. -/
def readNics (i : Inputs N P) (ports : Option (List VerbsPort)) : List NicFacts × List Bytes :=
  let scanned := i.scanNics (ports.getD [])
  let writable := dropUnwritableBusIds NicFacts.busId scanned.1
  let listed := dropUnlisted (hwlocDevices i.pcidevs) NicFacts.busId writable.1
  (listed.1,
    scanned.2 ++ noteIf writable.2 "nics: skipped " "NIC(s) whose bus ID nics.json cannot hold" ++
      noteIf listed.2 "nics: skipped " "NIC(s) whose bus ID hwloc does not list" ++
      [ascii "nics: " ++ countOf listed.1.length "NIC(s) in " ++ i.msSince 2])

/-- The sources, and the lines of the diagnostics. -/
def readSources (i : Inputs N P) : Read N P × List Bytes :=
  let devices := hwlocDevices i.pcidevs
  let nvml := readNvml i
  let ports := readPorts i
  let nics := readNics i ports.1
  (⟨i.pcieMax, devices, nvmlRequired i.pcidevs, nvml.1, nvml.2.1, ports.1, nics.1, ports.2.1⟩,
    [ascii "hwloc: " ++ countOf devices.length "PCI device(s)"] ++ nvml.2.2 ++ ports.2.2 ++
      nics.2 ++
      [ascii "pcie: " ++ countOf i.pcieMaxSize "device(s) with link maxima in " ++ i.msSince 3])

/-!
## What is kept is canonical
-/

theorem length_id_formatted (p : HwlocPci) : p.id.formatted.length < 32 := by
  have hdomain := @Hex.length_padded 4 p.domain.toNat 8 (by decide) p.domain.toNat_lt
  have hbus := @Hex.length_padded 2 p.bus.toNat 2 le_rfl p.bus.toNat_lt
  have hdev := @Hex.length_padded 2 p.dev.toNat 2 le_rfl p.dev.toNat_lt
  have hfunc := @Hex.length_padded 1 p.func.toNat 2 (by decide) p.func.toNat_lt
  rw [length_formatted]
  show (Hex.padded 4 p.domain.toNat).length + (Hex.padded 2 p.bus.toNat).length +
    (Hex.padded 2 p.dev.toNat).length + (Hex.padded 1 p.func.toNat).length + 3 < 32
  omega

theorem busIdOf_pciDevice (p : HwlocPci) :
    busIdOf (.pciDevice p) = some p.id.formatted := by
  show some (buffered 32 p.id.formatted) = _
  rw [buffered_eq (length_id_formatted p)]

/-- A printed bus ID that can be read is read as it stands. -/
theorem normalizeBusId_formatted {id : BusId} {r : Bytes}
    (h : normalizeBusId id.formatted = .ok r) : r = id.formatted := by
  obtain ⟨id', hspells, _, rfl⟩ := exists_of_normalizeBusId h
  rw [eq_of_spells_formatted hspells]

theorem mem_drop {A : Type} {bad : A -> Bool} {items : List A} {a : A} :
    a ∈ (drop bad items).1 <-> a ∈ items ∧ bad a = false := by
  unfold drop
  rw [List.mem_filter, Bool.not_eq_true']

/-- A bus ID that can be read, and that hwloc prints, is canonical. -/
theorem canonical_of_kept {A : Type} {busId : A -> Bytes} {pcidevs : List HwlocPci}
    {items : List A} {a : A}
    (h : a ∈ (dropUnlisted (hwlocDevices pcidevs) busId
      (dropUnwritableBusIds busId items).1).1) :
    normalizeBusId (busId a) = .ok (busId a) := by
  unfold dropUnlisted dropUnwritableBusIds at h
  rw [mem_drop, mem_drop, Bool.not_eq_false', Bool.not_eq_false', List.contains_iff_mem] at h
  obtain ⟨⟨_, hok⟩, hlisted⟩ := h
  unfold hwlocDevices at hlisted
  rw [List.mem_dedup, List.mem_filterMap] at hlisted
  obtain ⟨p, _, hp⟩ := hlisted
  rw [busIdOf_pciDevice, Option.some_inj] at hp
  rw [<- hp] at hok ⊢
  cases hread : normalizeBusId p.id.formatted with
  | error e =>
      rw [hread] at hok
      cases hok
  | ok r => rw [normalizeBusId_formatted hread]

theorem sublist_drop {A : Type} (bad : A -> Bool) (items : List A) :
    (drop bad items).1.Sublist items := List.filter_sublist

theorem readPorts_spec {i : Inputs N P} {ports : List VerbsPort}
    (h : (readPorts i).1 = some ports) :
    exists found, i.verbs = some (some found) ∧ ports.Sublist found ∧
      forall port, port ∈ ports -> normalizeBusId port.busId = .ok port.busId := by
  unfold readPorts at h
  cases hverbs : i.verbs with
  | none =>
      rw [hverbs] at h
      cases h
  | some answer =>
      rw [hverbs] at h
      cases answer with
      | none => cases h
      | some found =>
          cases h
          refine ⟨found, rfl, (sublist_drop _ _).trans (sublist_drop _ _), ?_⟩
          intro port hport
          exact canonical_of_kept hport

theorem readNics_spec (i : Inputs N P) (ports : Option (List VerbsPort)) :
    (readNics i ports).1.Sublist (i.scanNics (ports.getD [])).1 ∧
      forall nic, nic ∈ (readNics i ports).1 -> normalizeBusId nic.busId = .ok nic.busId := by
  constructor
  · exact (sublist_drop _ _).trans (sublist_drop _ _)
  · intro nic hnic
    exact canonical_of_kept hnic

/-- What the normalized form of a text must be. -/
structure Canonical (text r : Bytes) : Prop where
  pattern : exists s, r = ascii s ∧ Topology.Schema.isBusId s = true
  denotes : exists id, Spells text id
  /-- It denotes the same four numbers. -/
  same : forall id, Spells text id <-> Spells r id
  again : normalizeBusId r = .ok r

theorem spells_unique {text : Bytes} {id id' : BusId} (h : Spells text id)
    (h' : Spells text id') : id = id' := by
  rw [spells_iff] at h h'
  exact Option.some.inj (h.symm.trans h')

theorem canonical_of_normalizeBusId {text r : Bytes} (h : normalizeBusId text = .ok r) :
    Canonical text r := by
  obtain ⟨id, hspells, hdomain, rfl⟩ := exists_of_normalizeBusId h
  have hself := spells_formatted hspells.bounded hdomain
  constructor
  · exact ⟨_, isBusId_formatted hspells.bounded hdomain⟩
  · exact ⟨id, hspells⟩
  · intro id'
    constructor
    · intro h'
      rw [spells_unique h' hspells]
      exact hself
    · intro h'
      rw [spells_unique h' hself]
      exact hspells
  · exact normalizeBusId_of_spells hself hdomain

/-- Bus IDs are normalized as they should be, and those that are kept need not be. -/
theorem busIds_canonical (text : Bytes) (i : Inputs N P) :
    ((exists r, normalizeBusId text = .ok r) <->
        exists id, Spells text id ∧ id.domain ≤ kMaxDomain) ∧
      (forall r, normalizeBusId text = .ok r -> Canonical text r) ∧
      (forall nic, nic ∈ (readSources i).1.nics -> normalizeBusId nic.busId = .ok nic.busId) ∧
      (forall ports, (readSources i).1.ports = some ports ->
        forall port, port ∈ ports -> normalizeBusId port.busId = .ok port.busId) ∧
      (readSources i).1.nics.Sublist (i.scanNics ((readSources i).1.ports.getD [])).1 ∧
      (forall ports, (readSources i).1.ports = some ports ->
        exists found, i.verbs = some (some found) ∧ ports.Sublist found) := by
  have hnics := readNics_spec i (readPorts i).1
  refine ⟨?_, fun r hr => canonical_of_normalizeBusId hr, hnics.2, ?_, hnics.1, ?_⟩
  · constructor
    · intro h
      obtain ⟨r, hr⟩ := h
      obtain ⟨id, hspells, hdomain, _⟩ := exists_of_normalizeBusId hr
      exact ⟨id, hspells, hdomain⟩
    · intro h
      obtain ⟨id, hspells, hdomain⟩ := h
      exact ⟨_, normalizeBusId_of_spells hspells hdomain⟩
  · intro ports hports
    obtain ⟨_, _, _, hcanonical⟩ := readPorts_spec hports
    exact hcanonical
  · intro ports hports
    obtain ⟨found, hfound, hsublist, _⟩ := readPorts_spec hports
    exact ⟨found, hfound, hsublist⟩

/-- A machine with one NIC, and a second spelling of its bus ID in sysfs. -/
def oneNic : Inputs Unit Unit :=
  let nic : String -> NicFacts := fun busId =>
    ⟨ascii busId, ascii "mlx5_core", ascii "ethernet", 5, 16, 0, .inl 400000⟩
  { pcidevs := [⟨0, 0x0a, 0, 0, 0x15b3, 0x0200⟩]
    nvml := none
    gpus := fun _ => 0
    verbs := none
    infiniband := []
    scanNics := fun _ => ([nic "0000:0A:00.0", nic "0000:0a:00.0"], [])
    pcieMax := ()
    pcieMaxSize := 0
    msSince := fun _ => ascii "1.000 ms" }

theorem busIds_canonical_oneNic :
    Canonical (ascii "0000000A:0b:1F.7") (ascii "000a:0b:1f.7") ∧
      (readSources oneNic).1.nics.map NicFacts.busId = [ascii "0000:0a:00.0"] ∧
      forall nic, nic ∈ (readSources oneNic).1.nics ->
        normalizeBusId nic.busId = .ok nic.busId := by
  have h := busIds_canonical (ascii "0000000A:0b:1F.7") oneNic
  exact ⟨h.2.1 _ (by decide), by decide, h.2.2.1⟩

end Sources
end Capture
end Ostia

import Ostia.Capture.DerivedFixed
import Ostia.Capture.Hex
import Ostia.Capture.InetText
import Ostia.Capture.Nvml
import Ostia.Capture.Published
import Ostia.Capture.ValuesFree
import Ostia.Capture.Vpd
import Ostia.Foundation.Growth

/-!
# Collecting the identifiers of a machine

The raw set is read from the sysfs tree, from NVML, from a list of the user and, on a live host,
from its interfaces and names.  Whatever the machine shows at one of these places and is long
enough to be looked for, no published file shows.
-/

namespace Ostia
namespace Capture

open Foundation Bytes

/-!
## Sysfs
-/

/-- What can be read of an attribute, and whether a read error ends it. -/
structure Attribute where
  bytes : Bytes
  fails : Bool

/-- The regular files and the directories below a root. -/
structure SysfsReader where
  file : Bytes -> Option Attribute
  directory : Bytes -> Option (List Bytes)

namespace SysfsReader

variable (sysfs : SysfsReader)

def readBytes (rel : Bytes) : Option Bytes :=
  (sysfs.file rel).bind fun a => if a.fails then none else some a.bytes

def readPrefix (rel : Bytes) (maxBytes : Nat) : Option Bytes :=
  (sysfs.file rel).bind fun a =>
    if a.fails ∧ a.bytes.length < maxBytes then none else some (a.bytes.take maxBytes)

/-- The text of an attribute without the blanks at its end. -/
def read (rel : Bytes) : Option Bytes :=
  (sysfs.readBytes rel).map fun data => data.rdropWhile fun c => (ascii " \t\r\n").contains c

/-- The names in a directory, sorted. -/
def list (rel : Bytes) : List Bytes :=
  ((sysfs.directory rel).getD []).mergeSort fun x y => !decide (y < x)

end SysfsReader

/-!
## The sources
-/

def kPciDevices : Bytes := ascii "bus/pci/devices/"

def kVpdCap : Nat := 4096

def kIpoibBytes : Nat := 20

/-- An address of an interface; a packet address is cut to its length. -/
inductive InterfaceAddress where
  | inet (a : Ip4)
  | inet6 (a : Ip6)
  | packet (a : Vector UInt8 8) (halen : Nat)
  | other

/-- What a live host says of itself; none is a call or a file that fails. -/
structure LiveHost where
  interfaces : Option (List InterfaceAddress)
  hostname : Option Bytes
  /-- The first line of the file with the domain name. -/
  domainname : Option Bytes
  /-- The first line of the file with the machine ID. -/
  machineId : Option Bytes

section Collect

variable (inet : Inet) (sysfs : SysfsReader)

/-- An address of 20 bytes is one of IPoIB. -/
def addressKind (address : Bytes) : IdKind :=
  match hexBytes (normalisedHex address) with
  | some bytes => if bytes.length = kIpoibBytes then .ipoib else .mac
  | none => .mac

/-- Add what an attribute holds, when it can be read. -/
def addRead (kind : Bytes -> IdKind) (rel : Bytes) (raw : RawSet) : RawSet :=
  match sysfs.read rel with
  | some value => raw.add inet (kind value) value
  | none => raw

def addNetAddress (raw : RawSet) (rel : Bytes) : RawSet := addRead inet sysfs addressKind rel raw

def collectNet (raw : RawSet) : RawSet :=
  let raw := (sysfs.list (ascii "class/net")).foldl
    (fun raw name => addNetAddress inet sysfs raw (ascii "class/net/" ++ name ++ ascii "/address"))
    raw
  (sysfs.list kPciDevices).foldl
    (fun raw dev =>
      let base := kPciDevices ++ dev ++ ascii "/net/"
      (sysfs.list base).foldl
        (fun raw name => addNetAddress inet sysfs raw (base ++ name ++ ascii "/address")) raw)
    raw

def collectIbDevice (raw : RawSet) (base : Bytes) : RawSet :=
  let raw := [ascii "node_guid", ascii "sys_image_guid"].foldl
    (fun raw attr => addRead inet sysfs (fun _ => .guid) (base ++ attr) raw) raw
  (sysfs.list (base ++ ascii "ports")).foldl
    (fun raw port =>
      let gids := base ++ ascii "ports/" ++ port ++ ascii "/gids/"
      (sysfs.list gids).foldl
        (fun raw slot => addRead inet sysfs (fun _ => .gid) (gids ++ slot) raw) raw)
    raw

def collectIb (raw : RawSet) : RawSet :=
  let raw := (sysfs.list (ascii "class/infiniband")).foldl
    (fun raw dev => collectIbDevice inet sysfs raw (ascii "class/infiniband/" ++ dev ++ ascii "/"))
    raw
  (sysfs.list kPciDevices).foldl
    (fun raw pci =>
      let base := kPciDevices ++ pci ++ ascii "/infiniband/"
      (sysfs.list base).foldl
        (fun raw dev => collectIbDevice inet sysfs raw (base ++ dev ++ ascii "/")) raw)
    raw

/-- The vital product data of a device, when it is a network controller and has some. -/
def vpdOf (dev : Bytes) : Option Bytes :=
  let base := kPciDevices ++ dev ++ ascii "/"
  if (ascii "0x02").isPrefixOf ((sysfs.read (base ++ ascii "class")).getD []) then
    sysfs.readPrefix (base ++ ascii "vpd") kVpdCap
  else none

def collectVpd (raw : RawSet) : RawSet :=
  (sysfs.list kPciDevices).foldl
    (fun raw dev =>
      match vpdOf sysfs dev with
      | some vpd =>
          ((Vpd.vpdIdentifiers vpd).getD []).foldl (fun raw value => raw.add inet .serial value) raw
      | none => raw)
    raw

def kPlaceholders : List Bytes :=
  [ascii "not specified", ascii "to be filled by o.e.m.", ascii "default string", ascii "none",
   ascii "system serial number", ascii "chassis serial number",
   ascii "base board serial number", ascii "not applicable", ascii "n/a", ascii "0123456789",
   ascii "123456789", ascii "unknown"]

/-- A stock string of the firmware, or one character over and over. -/
def isDmiPlaceholder (low : Bytes) : Bool :=
  kPlaceholders.contains low || low.head?.any fun c => low.all (· == c)

def kDmi : Bytes := ascii "class/dmi/id/"

/-- The kind of a DMI field, none when it identifies nothing. -/
def dmiKind (name value : Bytes) : Option IdKind :=
  let low := lowered (trimmed value)
  if isDmiPlaceholder low then none
  else if instanceIds low = [low] then some .instanceId
  else if (ascii "_uuid").isSuffixOf name then some .uuid
  else if (ascii "_serial").isSuffixOf name || (ascii "_asset_tag").isSuffixOf name then some .dmi
  else none

def collectDmi (raw : RawSet) : RawSet :=
  (sysfs.list kDmi).foldl
    (fun raw name =>
      match sysfs.read (kDmi ++ name) with
      | some value =>
          match dmiKind name value with
          | some kind => raw.add inet kind value
          | none => raw
      | none => raw)
    raw

/-- A decimal number of 32 bits. -/
def uint32? (text : Bytes) : Option Nat :=
  if text ≠ [] ∧ text.all isDigit ∧ Decimal.naturalOf text < 2 ^ 32 then
    some (Decimal.naturalOf text)
  else none

/-- The board ID is also printed in hex. -/
def addBoardHex (raw : RawSet) (boardId : Bytes) : RawSet :=
  match uint32? boardId with
  | some value => raw.add inet .serial (ascii "0x" ++ Hex.padded 1 value)
  | none => raw

def addGpu (raw : RawSet) (gpu : Nvml.Gpu) : RawSet :=
  let raw := raw.add inet .uuid gpu.uuid
  let raw := raw.add inet .serial gpu.serial
  let raw := raw.add inet .serial gpu.boardId
  addBoardHex inet raw gpu.boardId

def collectNvml (nvml : Nvml.NvmlFacts) (raw : RawSet) : RawSet :=
  nvml.gpus.foldl (addGpu inet) raw

def addInterface (raw : RawSet) : InterfaceAddress -> RawSet
  | .inet a => raw.add inet .ipv4 (dotted a)
  | .inet6 a =>
      match inet.ntop6 a with
      | some text => raw.add inet .ipv6 text
      | none => raw
  | .packet a halen => if halen ≤ 8 then raw.add inet .mac (hexOf (a.toList.take halen)) else raw
  | .other => raw

def collectInterfaces (interfaces : Option (List InterfaceAddress)) (raw : RawSet) : RawSet :=
  (interfaces.getD []).foldl (addInterface inet) raw

def firstLabel (hostname : Bytes) : Bytes := hostname.takeWhile (· != '.'.toUInt8)

/-- The name of a host with its domain, when the host has one. -/
def fqdn (hostname : Bytes) (domainname : Option Bytes) : Option Bytes :=
  let domain := trimmed (domainname.getD [])
  if domain = [] ∨ domain = ascii "(none)" then none else some (hostname ++ ascii "." ++ domain)

def addHostNames (raw : RawSet) (hostname : Bytes) (domainname : Option Bytes) : RawSet :=
  let raw := raw.add inet .hostname hostname
  let raw := raw.add inet .hostname (firstLabel hostname)
  match fqdn hostname domainname with
  | some name => raw.add inet .hostname name
  | none => raw

def collectHostname (host : LiveHost) (raw : RawSet) : RawSet :=
  match host.hostname with
  | some hostname => addHostNames inet raw hostname host.domainname
  | none => raw

def collectMachineId (host : LiveHost) (raw : RawSet) : RawSet :=
  match host.machineId with
  | some id => raw.add inet .machineId id
  | none => raw

def collectExtra (extra : List Bytes) (raw : RawSet) : RawSet :=
  extra.foldl (fun raw value => raw.add inet .extra value) raw

def collectNvmlIf (nvml : Option Nvml.NvmlFacts) (raw : RawSet) : RawSet :=
  match nvml with
  | some nvml => collectNvml inet nvml raw
  | none => raw

def collectLive (live : Option LiveHost) (raw : RawSet) : RawSet :=
  match live with
  | some host =>
      collectMachineId inet host
        (collectHostname inet host (collectInterfaces inet host.interfaces raw))
  | none => raw

/-- The raw set before its forms are derived. -/
def collectRaw (nvml : Option Nvml.NvmlFacts) (extra : List Bytes) (live : Option LiveHost) :
    RawSet :=
  let raw := collectNet inet sysfs RawSet.empty
  let raw := collectIb inet sysfs raw
  let raw := collectVpd inet sysfs raw
  let raw := collectDmi inet sysfs raw
  let raw := collectNvmlIf inet nvml raw
  let raw := collectExtra inet extra raw
  collectLive inet live raw

end Collect

/-!
## What a machine shows
-/

section Shown

variable (sysfs : SysfsReader)

/-- The attributes with the address of a network device. -/
inductive AddressFile : Bytes -> Prop
  | net (name : Bytes) (h : name ∈ sysfs.list (ascii "class/net")) :
      AddressFile (ascii "class/net/" ++ name ++ ascii "/address")
  | pci (dev name : Bytes) (hdev : dev ∈ sysfs.list kPciDevices)
      (h : name ∈ sysfs.list (kPciDevices ++ dev ++ ascii "/net/")) :
      AddressFile (kPciDevices ++ dev ++ ascii "/net/" ++ name ++ ascii "/address")

/-- The directories of the InfiniBand devices. -/
inductive IbDevice : Bytes -> Prop
  | infiniband (dev : Bytes) (h : dev ∈ sysfs.list (ascii "class/infiniband")) :
      IbDevice (ascii "class/infiniband/" ++ dev ++ ascii "/")
  | pci (pci dev : Bytes) (hpci : pci ∈ sysfs.list kPciDevices)
      (h : dev ∈ sysfs.list (kPciDevices ++ pci ++ ascii "/infiniband/")) :
      IbDevice (kPciDevices ++ pci ++ ascii "/infiniband/" ++ dev ++ ascii "/")

/-- The attributes of an InfiniBand device that identify it or one of its ports. -/
inductive IbFile (base : Bytes) : IdKind -> Bytes -> Prop
  | guid (attr : Bytes) (h : attr ∈ [ascii "node_guid", ascii "sys_image_guid"]) :
      IbFile base .guid (base ++ attr)
  | gid (port slot : Bytes) (hport : port ∈ sysfs.list (base ++ ascii "ports"))
      (h : slot ∈ sysfs.list (base ++ ascii "ports/" ++ port ++ ascii "/gids/")) :
      IbFile base .gid (base ++ ascii "ports/" ++ port ++ ascii "/gids/" ++ slot)

/-- What NVML says of a GPU. -/
inductive GpuShows (gpu : Nvml.Gpu) : IdKind -> Bytes -> Prop
  | uuid : GpuShows gpu .uuid gpu.uuid
  | serial : GpuShows gpu .serial gpu.serial
  | boardId : GpuShows gpu .serial gpu.boardId
  | boardHex (n : Nat) (h : uint32? gpu.boardId = some n) :
      GpuShows gpu .serial (ascii "0x" ++ Hex.padded 1 n)

/-- What an address of an interface shows. -/
inductive InterfaceShows (inet : Inet) : InterfaceAddress -> IdKind -> Bytes -> Prop
  | inet (a : Ip4) : InterfaceShows inet (.inet a) .ipv4 (dotted a)
  | inet6 (a : Ip6) (text : Bytes) (h : inet.ntop6 a = some text) :
      InterfaceShows inet (.inet6 a) .ipv6 text
  | packet (a : Vector UInt8 8) (halen : Nat) (h : halen ≤ 8) :
      InterfaceShows inet (.packet a halen) .mac (hexOf (a.toList.take halen))

/-- What a live host shows. -/
inductive HostShows (inet : Inet) (host : LiveHost) : IdKind -> Bytes -> Prop
  | interface (a : InterfaceAddress) (kind : IdKind) (value : Bytes)
      (ha : a ∈ host.interfaces.getD []) (h : InterfaceShows inet a kind value) :
      HostShows inet host kind value
  | hostname (name : Bytes) (h : host.hostname = some name) : HostShows inet host .hostname name
  | label (name : Bytes) (h : host.hostname = some name) :
      HostShows inet host .hostname (firstLabel name)
  | fqdn (name full : Bytes) (hname : host.hostname = some name)
      (h : fqdn name host.domainname = some full) : HostShows inet host .hostname full
  | machineId (id : Bytes) (h : host.machineId = some id) : HostShows inet host .machineId id

/-- The identifiers of a machine, by their kinds. -/
inductive Shown (inet : Inet) (nvml : Option Nvml.NvmlFacts) (extra : List Bytes)
    (live : Option LiveHost) : IdKind -> Bytes -> Prop
  | address (rel value : Bytes) (hrel : AddressFile sysfs rel) (h : sysfs.read rel = some value) :
      Shown inet nvml extra live (addressKind value) value
  | infiniband (base rel value : Bytes) (kind : IdKind) (hbase : IbDevice sysfs base)
      (hrel : IbFile sysfs base kind rel) (h : sysfs.read rel = some value) :
      Shown inet nvml extra live kind value
  | vpd (dev vpd : Bytes) (values : List Bytes) (value : Bytes)
      (hdev : dev ∈ sysfs.list kPciDevices) (hvpd : vpdOf sysfs dev = some vpd)
      (hvalues : Vpd.vpdIdentifiers vpd = some values) (h : value ∈ values) :
      Shown inet nvml extra live .serial value
  | dmi (name value : Bytes) (kind : IdKind) (hname : name ∈ sysfs.list kDmi)
      (hread : sysfs.read (kDmi ++ name) = some value) (h : dmiKind name value = some kind) :
      Shown inet nvml extra live kind value
  | gpu (facts : Nvml.NvmlFacts) (gpu : Nvml.Gpu) (kind : IdKind) (value : Bytes)
      (hnvml : nvml = some facts) (hgpu : gpu ∈ facts.gpus) (h : GpuShows gpu kind value) :
      Shown inet nvml extra live kind value
  | extra (value : Bytes) (h : value ∈ extra) : Shown inet nvml extra live .extra value
  | host (host : LiveHost) (kind : IdKind) (value : Bytes) (hlive : live = some host)
      (h : HostShows inet host kind value) : Shown inet nvml extra live kind value

end Shown

/-!
## Collecting only adds
-/

/-- A set with at least the keys of an earlier one. -/
def Later (raw raw' : RawSet) : Prop := forall key, key ∈ raw.seen -> key ∈ raw'.seen

instance : IsPreorder RawSet Later where
  refl _ _ h := h
  trans _ _ _ h h' key hkey := h' key (h key hkey)

section Growing

variable {inet : Inet} {sysfs : SysfsReader}

/-- A value that can be looked for in a mode is in the set. -/
def HasAs (inet : Inet) (kind : IdKind) (value : Bytes) (mode : MatchMode) (raw : RawSet) : Prop :=
  forall needle, entered inet kind value mode = some needle -> (mode, needle) ∈ raw.seen

def Has (inet : Inet) (kind : IdKind) (value : Bytes) (raw : RawSet) : Prop :=
  HasAs inet kind value (defaultMode kind) raw

theorem lasting_hasAs (inet : Inet) (kind : IdKind) (value : Bytes) (mode : MatchMode) :
    Lasting Later (HasAs inet kind value mode) := fun _ _ hlater h needle hneedle =>
  hlater _ (h needle hneedle)

theorem grows_addAs (kind : IdKind) (value : Bytes) (mode : MatchMode) :
    Grows Later (fun raw => raw.addAs inet kind value mode) := fun _ _ hkey =>
  mem_seen_addAs.mpr (Or.inl hkey)

theorem hasAs_addAs (kind : IdKind) (value : Bytes) (mode : MatchMode) (raw : RawSet) :
    HasAs inet kind value mode (raw.addAs inet kind value mode) := by
  intro needle hneedle
  apply mem_seen_addAs.mpr
  right
  unfold Form.key
  rw [hneedle]
  rfl

theorem grows_add (kind : IdKind) (value : Bytes) :
    Grows Later (fun raw => raw.add inet kind value) := grows_addAs kind value _

theorem has_add (kind : IdKind) (value : Bytes) (raw : RawSet) :
    Has inet kind value (raw.add inet kind value) := hasAs_addAs kind value _ raw

theorem grows_addRead (kind : Bytes -> IdKind) (rel : Bytes) :
    Grows Later (addRead inet sysfs kind rel) := by
  unfold addRead
  cases sysfs.read rel with
  | some value => exact grows_add _ _
  | none => exact grows_id

theorem has_addRead (kind : Bytes -> IdKind) {rel value : Bytes}
    (h : sysfs.read rel = some value) (raw : RawSet) :
    Has inet (kind value) value (addRead inet sysfs kind rel raw) := by
  unfold addRead
  rw [h]
  exact has_add _ _ raw

theorem grows_addNetAddress (rel : Bytes) :
    Grows Later (fun raw => addNetAddress inet sysfs raw rel) := grows_addRead _ _

theorem has_collectNet {rel value : Bytes} (hrel : AddressFile sysfs rel)
    (h : sysfs.read rel = some value) (raw : RawSet) :
    Has inet (addressKind value) value (collectNet inet sysfs raw) := by
  have hlast := lasting_hasAs inet (addressKind value) value
    (defaultMode (addressKind value))
  have hdev : forall dev, Grows Later fun raw =>
      (sysfs.list (kPciDevices ++ dev ++ ascii "/net/")).foldl
        (fun raw name => addNetAddress inet sysfs raw
          (kPciDevices ++ dev ++ ascii "/net/" ++ name ++ ascii "/address")) raw :=
    fun dev => Grows.foldl (fun _ => grows_addNetAddress _) _
  cases hrel with
  | net name hname =>
      refine hlast _ _ (Grows.foldl hdev _ _) ?_
      refine hlast.foldl ?_ hname ?_ raw
      · exact fun _ => grows_addNetAddress _
      · exact fun raw => has_addRead _ h raw
  | pci dev name hmem hname =>
      refine hlast.foldl hdev hmem ?_ _
      refine hlast.foldl ?_ hname ?_
      · exact fun _ => grows_addNetAddress _
      · exact fun raw => has_addRead _ h raw

/-- The addresses of one port. -/
theorem grows_gids (base port : Bytes) : Grows Later fun raw =>
    (sysfs.list (base ++ ascii "ports/" ++ port ++ ascii "/gids/")).foldl
      (fun raw slot => addRead inet sysfs (fun _ => .gid)
        (base ++ ascii "ports/" ++ port ++ ascii "/gids/" ++ slot) raw) raw :=
  Grows.foldl (fun _ => grows_addRead _ _) _

theorem grows_collectIbDevice (base : Bytes) :
    Grows Later (fun raw => collectIbDevice inet sysfs raw base) := by
  intro raw
  refine trans_of Later (Grows.foldl ?_ _ raw) (Grows.foldl ?_ _ _)
  · exact fun _ => grows_addRead _ _
  · exact fun port => grows_gids base port

theorem has_collectIbDevice {base rel value : Bytes} {kind : IdKind}
    (hrel : IbFile sysfs base kind rel) (h : sysfs.read rel = some value) (raw : RawSet) :
    Has inet kind value (collectIbDevice inet sysfs raw base) := by
  have hlast := lasting_hasAs inet kind value (defaultMode kind)
  cases hrel with
  | guid attr hattr =>
      refine hlast _ _ (Grows.foldl (fun port => grows_gids base port) _ _) ?_
      refine hlast.foldl ?_ hattr ?_ raw
      · exact fun _ => grows_addRead _ _
      · exact fun raw => has_addRead (fun _ => .guid) h raw
  | gid port slot hport hslot =>
      refine hlast.foldl (fun port => grows_gids base port) hport ?_ _
      refine hlast.foldl ?_ hslot ?_
      · exact fun _ => grows_addRead _ _
      · exact fun raw => has_addRead (fun _ => .gid) h raw

/-- The devices of one PCI device. -/
theorem grows_ibDevices (pci : Bytes) : Grows Later fun raw =>
    (sysfs.list (kPciDevices ++ pci ++ ascii "/infiniband/")).foldl
      (fun raw dev => collectIbDevice inet sysfs raw
        (kPciDevices ++ pci ++ ascii "/infiniband/" ++ dev ++ ascii "/")) raw :=
  Grows.foldl (fun _ => grows_collectIbDevice _) _

theorem grows_collectIb : Grows Later (collectIb inet sysfs) := by
  intro raw
  refine trans_of Later (Grows.foldl ?_ _ raw) (Grows.foldl ?_ _ _)
  · exact fun _ => grows_collectIbDevice _
  · exact fun pci => grows_ibDevices pci

theorem has_collectIb {base rel value : Bytes} {kind : IdKind} (hbase : IbDevice sysfs base)
    (hrel : IbFile sysfs base kind rel) (h : sysfs.read rel = some value) (raw : RawSet) :
    Has inet kind value (collectIb inet sysfs raw) := by
  have hlast := lasting_hasAs inet kind value (defaultMode kind)
  cases hbase with
  | infiniband dev hdev =>
      refine hlast _ _ (Grows.foldl (fun pci => grows_ibDevices pci) _ _) ?_
      refine hlast.foldl ?_ hdev ?_ raw
      · exact fun _ => grows_collectIbDevice _
      · exact fun raw => has_collectIbDevice hrel h raw
  | pci pci dev hpci hdev =>
      refine hlast.foldl (fun pci => grows_ibDevices pci) hpci ?_ _
      refine hlast.foldl ?_ hdev ?_
      · exact fun _ => grows_collectIbDevice _
      · exact fun raw => has_collectIbDevice hrel h raw

theorem grows_vpd (dev : Bytes) : Grows Later fun raw =>
    match vpdOf sysfs dev with
    | some vpd =>
        ((Vpd.vpdIdentifiers vpd).getD []).foldl (fun raw value => raw.add inet .serial value) raw
    | none => raw := by
  cases vpdOf sysfs dev with
  | some vpd => exact Grows.foldl (fun _ => grows_add _ _) _
  | none => exact grows_id

theorem grows_collectVpd : Grows Later (collectVpd inet sysfs) := Grows.foldl grows_vpd _

theorem has_collectVpd {dev vpd value : Bytes} {values : List Bytes}
    (hdev : dev ∈ sysfs.list kPciDevices) (hvpd : vpdOf sysfs dev = some vpd)
    (hvalues : Vpd.vpdIdentifiers vpd = some values) (h : value ∈ values) (raw : RawSet) :
    Has inet .serial value (collectVpd inet sysfs raw) := by
  have hlast := lasting_hasAs inet .serial value (defaultMode .serial)
  refine hlast.foldl grows_vpd hdev ?_ raw
  intro raw
  rw [hvpd]
  dsimp only
  rw [hvalues]
  refine hlast.foldl ?_ h ?_ raw
  · exact fun _ => grows_add _ _
  · exact fun raw => has_add .serial value raw

theorem grows_dmi (name : Bytes) : Grows Later fun raw =>
    match sysfs.read (kDmi ++ name) with
    | some value =>
        match dmiKind name value with
        | some kind => raw.add inet kind value
        | none => raw
    | none => raw := by
  cases sysfs.read (kDmi ++ name) with
  | some value =>
      dsimp only
      cases dmiKind name value with
      | some kind => exact grows_add _ _
      | none => exact grows_id
  | none => exact grows_id

theorem grows_collectDmi : Grows Later (collectDmi inet sysfs) := Grows.foldl grows_dmi _

theorem has_collectDmi {name value : Bytes} {kind : IdKind} (hname : name ∈ sysfs.list kDmi)
    (hread : sysfs.read (kDmi ++ name) = some value) (h : dmiKind name value = some kind)
    (raw : RawSet) : Has inet kind value (collectDmi inet sysfs raw) := by
  refine (lasting_hasAs inet kind value (defaultMode kind)).foldl grows_dmi hname ?_ raw
  intro raw
  rw [hread]
  dsimp only
  rw [h]
  exact has_add kind value raw

theorem grows_addBoardHex (boardId : Bytes) :
    Grows Later (fun raw => addBoardHex inet raw boardId) := by
  unfold addBoardHex
  cases uint32? boardId with
  | some value => exact grows_add _ _
  | none => exact grows_id

theorem grows_boards (boardId : Bytes) : Grows Later fun raw =>
    addBoardHex inet (raw.add inet .serial boardId) boardId :=
  (grows_add .serial boardId).then (grows_addBoardHex boardId)

theorem grows_serials (gpu : Nvml.Gpu) : Grows Later fun raw =>
    addBoardHex inet ((raw.add inet .serial gpu.serial).add inet .serial gpu.boardId) gpu.boardId :=
  (grows_add .serial gpu.serial).then (grows_boards gpu.boardId)

theorem grows_addGpu (gpu : Nvml.Gpu) : Grows Later (fun raw => addGpu inet raw gpu) :=
  (grows_add .uuid gpu.uuid).then (grows_serials gpu)

theorem has_addGpu {gpu : Nvml.Gpu} {kind : IdKind} {value : Bytes} (h : GpuShows gpu kind value)
    (raw : RawSet) : Has inet kind value (addGpu inet raw gpu) := by
  have hlast := lasting_hasAs inet kind value (defaultMode kind)
  cases h with
  | uuid => exact hlast _ _ (grows_serials gpu _) (has_add _ _ raw)
  | serial => exact hlast _ _ (grows_boards gpu.boardId _) (has_add _ _ _)
  | boardId => exact hlast _ _ (grows_addBoardHex gpu.boardId _) (has_add _ _ _)
  | boardHex n hn =>
      unfold addGpu addBoardHex
      dsimp only
      rw [hn]
      exact has_add _ _ _

theorem grows_collectNvmlIf (nvml : Option Nvml.NvmlFacts) :
    Grows Later (collectNvmlIf inet nvml) := by
  cases nvml with
  | some facts => exact Grows.foldl grows_addGpu _
  | none => exact grows_id

theorem has_collectNvmlIf {facts : Nvml.NvmlFacts} {gpu : Nvml.Gpu} {kind : IdKind} {value : Bytes}
    (hgpu : gpu ∈ facts.gpus) (h : GpuShows gpu kind value) (raw : RawSet) :
    Has inet kind value (collectNvmlIf inet (some facts) raw) :=
  (lasting_hasAs inet kind value (defaultMode kind)).foldl grows_addGpu hgpu
    (fun raw => has_addGpu h raw) raw

theorem grows_collectExtra (extra : List Bytes) : Grows Later (collectExtra inet extra) :=
  Grows.foldl (fun _ => grows_add _ _) _

theorem has_collectExtra {extra : List Bytes} {value : Bytes} (h : value ∈ extra) (raw : RawSet) :
    Has inet .extra value (collectExtra inet extra raw) := by
  refine (lasting_hasAs inet .extra value (defaultMode .extra)).foldl ?_ h ?_ raw
  · exact fun _ => grows_add _ _
  · exact fun raw => has_add .extra value raw

theorem grows_addInterface (a : InterfaceAddress) :
    Grows Later (fun raw => addInterface inet raw a) := by
  cases a with
  | inet a => exact grows_add _ _
  | inet6 a =>
      unfold addInterface
      dsimp only
      cases inet.ntop6 a with
      | some text => exact grows_add _ _
      | none => exact grows_id
  | packet a halen =>
      unfold addInterface
      dsimp only
      split_ifs
      · exact grows_add _ _
      · exact grows_id
  | other => exact grows_id

theorem has_addInterface {a : InterfaceAddress} {kind : IdKind} {value : Bytes}
    (h : InterfaceShows inet a kind value) (raw : RawSet) :
    Has inet kind value (addInterface inet raw a) := by
  cases h with
  | inet a => exact has_add _ _ raw
  | inet6 a text htext =>
      unfold addInterface
      dsimp only
      rw [htext]
      exact has_add _ _ raw
  | packet a halen hle =>
      unfold addInterface
      dsimp only
      rw [if_pos hle]
      exact has_add _ _ raw

theorem grows_collectInterfaces (interfaces : Option (List InterfaceAddress)) :
    Grows Later (collectInterfaces inet interfaces) := Grows.foldl grows_addInterface _

/-- The names after the first one. -/
theorem grows_labels (name : Bytes) (domainname : Option Bytes) : Grows Later fun raw =>
    match fqdn name domainname with
    | some full => (raw.add inet .hostname (firstLabel name)).add inet .hostname full
    | none => raw.add inet .hostname (firstLabel name) := by
  cases fqdn name domainname with
  | some full => exact (grows_add _ _).then (grows_add _ _)
  | none => exact grows_add _ _

theorem grows_addHostNames (name : Bytes) (domainname : Option Bytes) :
    Grows Later (fun raw => addHostNames inet raw name domainname) :=
  (grows_add .hostname name).then (grows_labels name domainname)

theorem grows_collectHostname (host : LiveHost) : Grows Later (collectHostname inet host) := by
  unfold collectHostname
  cases host.hostname with
  | none => exact grows_id
  | some name => exact grows_addHostNames name host.domainname

theorem grows_collectMachineId (host : LiveHost) : Grows Later (collectMachineId inet host) := by
  unfold collectMachineId
  cases host.machineId with
  | some id => exact grows_add _ _
  | none => exact grows_id

theorem grows_collectLive (live : Option LiveHost) : Grows Later (collectLive inet live) := by
  cases live with
  | none => exact grows_id
  | some host =>
      intro raw
      exact trans_of Later (grows_collectInterfaces _ raw)
        (trans_of Later (grows_collectHostname host _) (grows_collectMachineId host _))

theorem has_collectLive {host : LiveHost} {kind : IdKind} {value : Bytes}
    (h : HostShows inet host kind value) (raw : RawSet) :
    Has inet kind value (collectLive inet (some host) raw) := by
  have hlast := lasting_hasAs inet kind value (defaultMode kind)
  have hname : Has inet kind value (collectHostname inet host
      (collectInterfaces inet host.interfaces raw)) ->
      Has inet kind value (collectLive inet (some host) raw) :=
    fun hhas => hlast _ _ (grows_collectMachineId host _) hhas
  cases h with
  | interface a _ _ ha hshows =>
      apply hname
      refine hlast _ _ (grows_collectHostname host _) ?_
      exact hlast.foldl grows_addInterface ha (fun raw => has_addInterface hshows raw) raw
  | hostname name h =>
      apply hname
      unfold collectHostname
      rw [h]
      exact hlast _ _ (grows_labels value host.domainname _) (has_add _ _ _)
  | label name h =>
      apply hname
      unfold collectHostname
      rw [h]
      unfold addHostNames
      dsimp only
      cases fqdn name host.domainname with
      | some full => exact hlast _ _ (grows_add _ _ _) (has_add _ _ _)
      | none => exact has_add _ _ _
  | fqdn name full h hfull =>
      apply hname
      unfold collectHostname
      rw [h]
      unfold addHostNames
      dsimp only
      rw [hfull]
      exact has_add _ _ _
  | machineId id h =>
      show Has inet .machineId value (collectMachineId inet host _)
      unfold collectMachineId
      rw [h]
      exact has_add _ _ _

/-- Whatever a machine shows is collected. -/
theorem has_collectRaw {nvml : Option Nvml.NvmlFacts} {extra : List Bytes}
    {live : Option LiveHost} {kind : IdKind} {value : Bytes}
    (h : Shown sysfs inet nvml extra live kind value) :
    Has inet kind value (collectRaw inet sysfs nvml extra live) := by
  have hlast := lasting_hasAs inet kind value (defaultMode kind)
  have hextra : Grows Later fun raw => collectLive inet live (collectExtra inet extra raw) :=
    (grows_collectExtra extra).then (grows_collectLive live)
  have hnvml : Grows Later fun raw => collectLive inet live (collectExtra inet extra
      (collectNvmlIf inet nvml raw)) := (grows_collectNvmlIf nvml).then hextra
  have hdmi : Grows Later fun raw => collectLive inet live (collectExtra inet extra
      (collectNvmlIf inet nvml (collectDmi inet sysfs raw))) := grows_collectDmi.then hnvml
  have hvpd : Grows Later fun raw => collectLive inet live (collectExtra inet extra
      (collectNvmlIf inet nvml (collectDmi inet sysfs (collectVpd inet sysfs raw)))) :=
    grows_collectVpd.then hdmi
  cases h with
  | address rel _ hrel h =>
      exact hlast _ _ (trans_of Later (grows_collectIb _) (hvpd _)) (has_collectNet hrel h _)
  | infiniband base rel _ _ hbase hrel h => exact hlast _ _ (hvpd _) (has_collectIb hbase hrel h _)
  | vpd dev vpd values _ hdev hof hvalues h =>
      exact hlast _ _ (hdmi _) (has_collectVpd hdev hof hvalues h _)
  | dmi name _ _ hname hread h => exact hlast _ _ (hnvml _) (has_collectDmi hname hread h _)
  | gpu facts gpu _ _ hfacts hgpu h =>
      rw [hfacts]
      exact hlast _ _ (hextra _) (has_collectNvmlIf hgpu h _)
  | extra _ h => exact hlast _ _ (grows_collectLive live _) (has_collectExtra h _)
  | host host _ _ hlive h =>
      rw [hlive]
      exact has_collectLive h _

/-!
## Deriving only adds
-/

theorem grows_addForms (kind : IdKind) (fs : List Form) :
    Grows Later (fun raw => raw.addForms inet kind fs) :=
      Grows.foldl (fun _ => grows_addAs _ _ _) fs

theorem hasAs_addForms {kind : IdKind} {fs : List Form} {f : Form} (hf : f ∈ fs) (raw : RawSet) :
    HasAs inet kind f.value f.mode (raw.addForms inet kind fs) := by
  refine (lasting_hasAs inet kind f.value f.mode).foldl ?_ hf ?_ raw
  · exact fun _ => grows_addAs _ _ _
  · exact fun raw => hasAs_addAs kind f.value f.mode raw

theorem grows_addIpv6Forms (kind : IdKind) (b : Ip6) :
    Grows Later (fun raw => raw.addIpv6Forms inet kind b) :=
  (grows_addAs _ _ _).then (grows_addAs _ _ _)

theorem grows_addMappedIpv4 (kind : IdKind) (b : Ip6) :
    Grows Later (fun raw => raw.addMappedIpv4 inet kind b) := by
  intro raw
  dsimp only
  rw [addMappedIpv4_eq]
  exact grows_addForms _ _ raw

theorem grows_expandToken (e : RawEntry) : Grows Later (fun raw => raw.expandToken inet e) := by
  intro raw
  dsimp only
  cases hfour : parseIpv4 inet e.needle with
  | some q =>
      rw [expandToken_ipv4 hfour]
      exact grows_addForms _ _ raw
  | none =>
      rw [RawSet.expandToken]
      split
      · rename_i q hq
        rw [hfour] at hq
        cases hq
      · cases parseIpv6 inet e.needle with
        | some b =>
            exact trans_of Later (grows_addAs e.kind (hexOf b.toList) .hex raw)
              (grows_addMappedIpv4 e.kind b _)
        | none =>
            dsimp only
            split_ifs
            · exact Grows.foldl (fun _ => grows_addAs _ _ _) _ raw
            · exact refl_of Later raw

theorem grows_expandHex (e : RawEntry) : Grows Later (fun raw => raw.expandHex inet e) := by
  intro raw
  unfold RawSet.expandHex
  dsimp only
  split_ifs
  · exact grows_addAs _ _ _ raw
  · cases hexBytes e.needle with
    | none => exact refl_of Later raw
    | some bytes =>
        dsimp only
        cases sized 6 bytes with
        | some b => exact trans_of Later (grows_addAs _ _ _ raw) (grows_addIpv6Forms _ _ _)
        | none =>
            cases sized 8 bytes with
            | some b => exact grows_addIpv6Forms _ _ raw
            | none =>
                cases sized 16 bytes with
                | some gid =>
                    exact trans_of Later (grows_addAs _ _ _ raw) (grows_addMappedIpv4 _ _ _)
                | none =>
                    cases sized 20 bytes with
                    | some b =>
                        exact trans_of Later (grows_addIpv6Forms _ _ raw)
                          (trans_of Later (grows_addMappedIpv4 _ _ _) (grows_addAs _ _ _ _))
                    | none => exact refl_of Later raw

theorem later_expandDerived (raw : RawSet) : Later raw (expandDerived inet raw) := by
  refine Grows.foldl (fun e => ?_) raw.entries raw
  intro raw
  dsimp only
  cases e.mode with
  | hex => exact grows_expandHex e raw
  | token => exact grows_expandToken e raw

/-- The forms of every address are in the set. -/
theorem hasAs_expandDerived {raw : RawSet} {e : RawEntry} {f : Form} (he : e ∈ raw.entries)
    (hkind : e.kind.isAddress = true) (hf : f ∈ forms inet e) :
    HasAs inet e.kind f.value f.mode (expandDerived inet raw) := by
  refine (lasting_hasAs inet e.kind f.value f.mode).foldl (fun d => ?_) he ?_ raw
  · intro raw
    dsimp only
    cases d.mode with
    | hex => exact grows_expandHex d raw
    | token => exact grows_expandToken d raw
  · intro raw
    cases hmode : e.mode with
    | hex =>
        dsimp only
        rw [expandHex_eq hkind hmode]
        exact hasAs_addForms hf raw
    | token =>
        dsimp only
        rw [expandToken_eq hkind hmode]
        exact hasAs_addForms hf raw

end Growing

/-!
## Published files
-/

section Published

variable {inet : Inet} {sysfs : SysfsReader} {sha256Hex : Bytes -> String} {env : Env}

/-- A search that finds nothing has read every file and found no line that an entry matches. -/
theorem silent_of_search {locate : File -> Nat -> Bytes} {raw : RawSet} {files : List File}
    (h : search locate raw files = []) {file : File} (hfile : file ∈ files) :
    exists text, file.text = some text ∧ Silent raw text := by
  rw [search_eq_flatMap, List.flatMap_eq_nil_iff] at h
  have hnone := h file hfile
  cases htext : file.text with
  | none =>
      rw [search_singleton] at hnone
      unfold searchFile at hnone
      rw [htext] at hnone
      cases hnone
  | some text =>
      refine ⟨text, rfl, ?_⟩
      intro e he line hline hmatch
      obtain ⟨k, hk⟩ := List.mem_iff_getElem?.mp hline
      obtain ⟨f, hf, _⟩ := (((search_matches locate raw files).2 file.name text).1 k).mpr
        ⟨line, hk, e, he, hmatch⟩
      rw [<- htext, hnone] at hf
      cases hf

/-- What is published is silent about the identifiers of the run. -/
theorem silent_issued {base out : Out} {raw : RawSet} {files : List (String × Bytes)}
    {staged checked : Scratched} {id : Option String}
    (h : Issued sha256Hex env base raw files staged checked id out)
    (hhook : env.beforeValidate = .ok) {name : String} {bytes : Bytes} (hname : name ∈ kDataFiles)
    (hfile : (filled files).find? name = some bytes) : Silent raw bytes := by
  have hmem : name ∈ files.map Prod.fst := by
    by_contra hnot
    rw [find?_filled_eq_none.mpr hnot] at hfile
    cases hfile
  have hsearched : (⟨ascii name, readStaged env.searchReads (some checked) name⟩ : File) ∈
      (searchedNames files).map fun name =>
        ⟨ascii name, readStaged env.searchReads (some checked) name⟩ :=
    List.mem_map_of_mem (List.mem_append_left _ hmem)
  obtain ⟨text, htext, hsilent⟩ := silent_of_search h.unfound hsearched
  have hread : (checked.find? name) = some text := by
    have hstaged : readStaged env.searchReads (some checked) name = some text := htext
    unfold readStaged at hstaged
    split_ifs at hstaged
    exact hstaged
  rw [h.find?_checked hhook hname, hfile] at hread
  rw [Option.some.inj hread]
  exact hsilent

/-- A data file that stands in the directory of a success is one that was published. -/
theorem filled_of_file? {base out : Out} {raw : RawSet} {files : List (String × Bytes)}
    {staged checked : Scratched} {id : Option String}
    (h : Issued sha256Hex env base raw files staged checked id out) (hbase : Ready base)
    {name : String} {bytes : Bytes} (hname : name ∈ kDataFiles)
    (hfile : out.file? name = some bytes) : (filled files).find? name = some bytes := by
  unfold Out.file? at hfile
  cases hfind : (filled files).find? name with
  | some bytes' =>
      rw [h.copied name bytes' hfind] at hfile
      exact hfile
  | none =>
      rw [h.others name hname hfind] at hfile
      rcases hbase.clear_data hname with hnone | htree
      · rw [hnone] at hfile
        cases hfile
      · rw [htree] at hfile
        cases hfile

/--
A capture that returns no failure leaves no data file with a line that an identifier of the
machine matches, or a form that is derived from one of its addresses.
-/
theorem captured_hides {printer : Printer} {nvml : Option Nvml.NvmlFacts}
    {extra : List Bytes} {live : Option LiveHost}
    (hraw : env.raw = .ok (expandDerived inet (collectRaw inet sysfs nvml extra live)))
    (hhook : env.beforeValidate = .ok) {out : Out} (hout : Removable out) {diag : List Bytes}
    {outcome : CaptureOutcome}
    (h : (capture printer sha256Hex env (Run.start out [] diag)).result = .ok outcome)
    (hexit : outcome.exitCode = 0 ∨ outcome.exitCode = 2) {name : String} {bytes : Bytes}
    (hname : name ∈ kDataFiles)
    (hfile : (capture printer sha256Hex env (Run.start out [] diag)).state.out.file? name =
      some bytes) {line : Bytes} (hline : line ∈ textLines bytes) :
    (forall kind value needle, Shown sysfs inet nvml extra live kind value ->
      entered inet kind value (defaultMode kind) = some needle ->
        ¬ RawEntry.Matches ⟨kind, defaultMode kind, needle⟩ line) ∧
      forall e f needle, e ∈ (collectRaw inet sysfs nvml extra live).entries ->
        e.kind.isAddress = true -> f ∈ forms inet e ->
          entered inet e.kind f.value f.mode = some needle ->
            ¬ RawEntry.Matches ⟨e.kind, f.mode, needle⟩ line := by
  have hs : Removable (Run.start out [] diag).out := hout
  have hsilent : Silent (expandDerived inet (collectRaw inet sysfs nvml extra live)) bytes := by
    cases captured printer sha256Hex env hs with
    | refused _ hresult _ =>
        rw [h] at hresult
        cases hresult
        rcases hexit with hexit | hexit
        · cases hexit
        · cases hexit
    | thrown e hresult _ => cases h.symm.trans hresult
    | went htaken b hb hprepared hresult hend =>
        obtain ⟨raw, files, staged, checked, hissued⟩ :=
          go_issued (hprepared.fresh (start_fresh out [] diag)) hprepared.ready
            (hprepared.room rfl) (hresult.symm.trans h) hexit
        rw [<- hend] at hissued
        rw [<- Except.ok.inj (hissued.collected.symm.trans hraw)]
        exact silent_issued hissued hhook hname
          (filled_of_file? hissued hprepared.ready hname hfile)
  have hkey : forall kind mode needle,
      (mode, needle) ∈ (expandDerived inet (collectRaw inet sysfs nvml extra live)).seen ->
        ¬ RawEntry.Matches ⟨kind, mode, needle⟩ line := by
    intro kind mode needle hseen
    obtain ⟨e, he, hkey⟩ := RawSet.mem_seen.mp hseen
    have hmode : e.mode = mode := congrArg Prod.fst hkey
    have hneedle : e.needle = needle := congrArg Prod.snd hkey
    have hnot := hsilent e he line hline
    unfold RawEntry.Matches at hnot ⊢
    rw [hmode, hneedle] at hnot
    exact hnot
  constructor
  · intro kind value needle hshown hneedle
    exact hkey _ _ _ (later_expandDerived _ _ (has_collectRaw hshown needle hneedle))
  · intro e f needle he hkind hf hneedle
    exact hkey _ _ _ (hasAs_expandDerived he hkind hf needle hneedle)

/-- A machine with one network device. -/
def oneDevice : SysfsReader where
  file rel :=
    if rel = ascii "class/net/eth0/address" then some ⟨ascii "0c:42:a1:00:5e:9f\n", false⟩
    else none
  directory rel := if rel = ascii "class/net" then some [ascii "eth0"] else none

def deviceMachine : Env :=
  { plainMachine with
    raw := .ok (expandDerived InetText.inet (collectRaw InetText.inet oneDevice none [] none))
    nics := .ok (ascii "nic 0\n") }

theorem captured_hides_device :
    (forall kind value needle, Shown oneDevice InetText.inet none [] none kind value ->
      entered InetText.inet kind value (defaultMode kind) = some needle ->
        ¬ RawEntry.Matches ⟨kind, defaultMode kind, needle⟩ (ascii "nic 0")) ∧
      forall e f needle, e ∈ (collectRaw InetText.inet oneDevice none [] none).entries ->
        e.kind.isAddress = true -> f ∈ forms InetText.inet e ->
          entered InetText.inet e.kind f.value f.mode = some needle ->
            ¬ RawEntry.Matches ⟨e.kind, f.mode, needle⟩ (ascii "nic 0") :=
  @captured_hides InetText.inet oneDevice (fun _ => "00") deviceMachine prettyPrinter none []
    none rfl rfl
    .absent removable_absent [] ⟨0, some "topo1:sha256:00"⟩
    (Fallible.eq_ok_of_toOption (by decide +kernel)) (Or.inl rfl) "nics.json" (ascii "nic 0\n")
    (by decide)
    (by decide +kernel) (ascii "nic 0") (by decide +kernel)

end Published

end Capture
end Ostia

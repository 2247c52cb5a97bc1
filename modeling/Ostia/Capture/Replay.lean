import Ostia.Capture.QueriedLinks
import Ostia.Capture.ReplayedFacts
import Ostia.Capture.WrittenDocs

/-!
# Replaying a capture

The files that a capture has staged are read back and a model is built from them.  The NICs and
ports that it has kept are devices of the tree; an active NVLink to a GPU is kept as it was
reported.
-/

namespace Ostia
namespace Capture
namespace Replay

open Foundation Hwloc Nvml Sources Writers
open Ostia.Topology (Json Model)
open Ostia.Topology.Builder (Dangling Documents KnownParents build byKey gpuDocs gpuIds idsOf
  leafIds linksOf nicIds reportOf)

/-!
## The files that are read back
-/

/-- The PCI devices of a topology, in the order of hwloc. -/
def pcidevs (topo : Hwloc.Topology) : List HwlocPci :=
  (topo.ofType .pciDevice).filterMap fun p => p.data.attr.pci?.map PciAttr.toHwlocPci

def builderPci (f : Hwloc.PciFacts) : Topology.PciFacts where
  key := characters f.key
  parentKey := characters f.parentKey
  bridge := f.bridge
  pciVendor := f.pciVendor
  pciDevice := f.pciDevice
  maxGen := f.maxGen
  maxWidth := f.maxWidth
  numa := f.numa.map Int.ofNat

/-- The facts of the files, with the tree that hwloc makes of hwloc.xml. -/
def fixtureFacts (topo : Hwloc.Topology) (s : Read NvmlFacts PcieMaxMap) : Topology.Facts :=
  let facts := extractHwlocFacts topo none
  { packages := facts.packages
    numaNodes := facts.numaNodes
    pci := facts.pci.map builderPci
    nvml := (s.nvml.map nvmlJson).getD .null
    nics := nicsJson s.nics s.ports }

/-- The library's error for a reference to nothing. -/
def DanglingReference {A : Type} (r : Except Topology.Fault A) : Prop :=
  exists e, r = .error (.topology e) ∧ e.code = "dangling_reference"

/-- The device of a bus ID is found. -/
def Found (facts : Topology.Facts) (id : String) : Prop :=
  exists p, (byKey facts).find? id = some p ∧ p.bridge = false

/-- With every device found, a reference dangles exactly when a link does. -/
theorem danglingReference_build {facts : Topology.Facts} (hdocs : Documents facts)
    (hparents : KnownParents facts) (hfound : forall id, id ∈ leafIds facts -> Found facts id) :
    DanglingReference (build facts) <-> Dangling facts := by
  have hbuild := Topology.Builder.build_dangling hdocs hparents hfound
  constructor
  · intro hreference
    obtain ⟨e, herror, _⟩ := hreference
    by_contra hnot
    obtain ⟨model, hmodel⟩ := hbuild.2 hnot
    rw [hmodel] at herror
    cases herror
  · intro hdangling
    obtain ⟨self, remote, herror⟩ := hbuild.1 hdangling
    exact ⟨_, herror, rfl⟩

/-!
## Links to GPUs that are not listed
-/

/-- Every active link to a GPU has an other end that can be read and written, and that NVML lists
itself. -/
def LinksListed (lib : Library) : Prop :=
  forall state, lib.linkState = some state -> forall i, i < lib.count.2 -> forall l,
    Reported state i l -> state i l = (.success, true) ->
      answer (lib.linkType.map fun call => call i l) = some .gpu ->
        exists buf id, answer (lib.linkPci.map fun call => call i l) = some buf ∧
          busId buf = .ok id ∧ lib.lists id

section

variable {lib : Library} {facts : NvmlFacts}

theorem state_linkOf (i l : Nat) (rc : Return) (active : Bool) :
    (linkOf lib i l rc active).state = ascii "active" <-> rc = .success ∧ active = true := by
  have hinactive : ascii "inactive" ≠ ascii "active" := by decide
  have hsupported : ascii "not_supported" ≠ ascii "active" := by decide
  show (if rc = .notSupported then ascii "not_supported"
    else if rc = .success ∧ active = true then ascii "active" else ascii "inactive") = _ <-> _
  split_ifs with hnot hactive
  · constructor
    · intro h
      exact absurd h hsupported
    · intro h
      rw [hnot] at h
      cases h.1
  · exact iff_of_true rfl hactive
  · exact iff_of_false hinactive hactive

theorem remoteType_linkOf (i l : Nat) (rc : Return) (active : Bool) :
    (linkOf lib i l rc active).remoteType = ascii "gpu" <->
      answer (lib.linkType.map fun call => call i l) = some .gpu := by
  show ((answer (lib.linkType.map fun call => call i l)).map remoteType).getD
    (ascii "unknown") = _ <-> _
  cases answer (lib.linkType.map fun call => call i l) with
  | none => exact iff_of_false (by decide) (by simp)
  | some type =>
      cases type with
      | gpu => exact iff_of_true rfl rfl
      | switch => exact iff_of_false (by decide) (by simp)
      | other => exact iff_of_false (by decide) (by simp)

/-- The other end of a link to a GPU, when it can be read and written. -/
theorem remoteBusId_linkOf {i l : Nat} {rc : Return} {active : Bool} {id : Bytes}
    (h : answer (lib.linkType.map fun call => call i l) = some .gpu) :
    (linkOf lib i l rc active).remoteBusId = some id <->
      exists buf, answer (lib.linkPci.map fun call => call i l) = some buf ∧
        busId buf = .ok id := by
  have hremote : (linkOf lib i l rc active).remoteBusId =
      ((answer (lib.linkPci.map fun call => call i l)).map busId).bind Except.toOption := by
    have hgpu : remoteType .gpu ≠ ascii "unknown" := by decide
    unfold linkOf remote
    rw [h]
    simp only [Option.map_some, Option.getD_some]
    rw [if_neg hgpu]
  rw [hremote]
  cases answer (lib.linkPci.map fun call => call i l) with
  | none => simp
  | some buf =>
      simp only [Option.map_some, Option.bind_some, Option.some_inj, exists_eq_left']
      cases busId buf with
      | error reason => simp [Except.toOption]
      | ok id' => simp [Except.toOption]

theorem busId_ne_nil {buf id : Bytes} (h : busId buf = .ok id) : id ≠ [] := by
  obtain ⟨bus, _, _, rfl⟩ := BusId.exists_of_normalizeBusId h
  intro hnil
  have hlength := congrArg List.length hnil
  rw [BusId.length_formatted] at hlength
  simp at hlength

section Documents

variable {topo : Hwloc.Topology} {s : Read NvmlFacts PcieMaxMap}

theorem gpuDocs_none (h : s.nvml = none) : gpuDocs (fixtureFacts topo s) = [] := by
  unfold gpuDocs fixtureFacts
  rw [h]
  rfl

theorem gpuDocs_some (h : s.nvml = some facts) :
    gpuDocs (fixtureFacts topo s) = gpusJson facts.gpus := by
  unfold gpuDocs fixtureFacts
  rw [h]
  rfl

/-- The document names the GPUs that NVML lists. -/
theorem mem_gpuIds {id : Bytes} (hs : s.nvml = some facts) (h : (query lib).1 = .ok facts) :
    characters id ∈ gpuIds (fixtureFacts topo s) <-> lib.lists id := by
  rw [lists_iff h]
  unfold gpuIds
  rw [gpuDocs_some hs, idsOf_gpusJson, List.mem_map, List.mem_map]
  constructor
  · intro hmem
    obtain ⟨g, hg, hname⟩ := hmem
    exact ⟨g, List.mem_mergeSort.mp hg, characters_injective hname⟩
  · intro hmem
    obtain ⟨g, hg, rfl⟩ := hmem
    exact ⟨g, List.mem_mergeSort.mpr hg, rfl⟩

/-- A link that is not known to lead anywhere leads to no GPU of the document. -/
theorem remote_mem_gpuIds (hs : s.nvml = some facts) (h : (query lib).1 = .ok facts)
    (link : NvLink) :
    characters (link.remoteBusId.getD []) ∈ gpuIds (fixtureFacts topo s) <->
      exists id, link.remoteBusId = some id ∧ lib.lists id := by
  rw [mem_gpuIds hs h]
  cases link.remoteBusId with
  | none =>
      constructor
      · intro hlists
        obtain ⟨i, _, hbus⟩ := hlists
        exact absurd rfl (busId_ne_nil hbus)
      · intro hlists
        obtain ⟨id, hid, _⟩ := hlists
        cases hid
  | some id =>
      constructor
      · intro hlists
        exact ⟨id, rfl, hlists⟩
      · intro hlists
        obtain ⟨id', hid, hlists⟩ := hlists
        cases hid
        exact hlists

/-- A link dangles in the document exactly when NVML reports such a link. -/
theorem dangling_iff (hs : s.nvml = some facts) (h : (query lib).1 = .ok facts) :
    Dangling (fixtureFacts topo s) <-> ¬ LinksListed lib := by
  have hlink : forall i l rc active,
      (exists remote, reportOf (linkJson (linkOf lib i l rc active)) = .toGpu remote ∧
          remote ∉ gpuIds (fixtureFacts topo s)) <->
        (rc = .success ∧ active = true) ∧
          answer (lib.linkType.map fun call => call i l) = some .gpu ∧
          ¬ exists buf id, answer (lib.linkPci.map fun call => call i l) = some buf ∧
            busId buf = .ok id ∧ lib.lists id := by
    intro i l rc active
    have hbuf : answer (lib.linkType.map fun call => call i l) = some .gpu ->
        ((exists id, (linkOf lib i l rc active).remoteBusId = some id ∧ lib.lists id) <->
          exists buf id, answer (lib.linkPci.map fun call => call i l) = some buf ∧
            busId buf = .ok id ∧ lib.lists id) := by
      intro hgpu
      simp only [remoteBusId_linkOf hgpu]
      constructor
      · intro hid
        obtain ⟨id, ⟨buf, hbuf, hbus⟩, hlists⟩ := hid
        exact ⟨buf, id, hbuf, hbus, hlists⟩
      · intro hid
        obtain ⟨buf, id, hbuf, hbus, hlists⟩ := hid
        exact ⟨id, ⟨buf, hbuf, hbus⟩, hlists⟩
    constructor
    · intro hr
      obtain ⟨remote, hreport, hnot⟩ := hr
      obtain ⟨hstate, htype, rfl⟩ := (reportOf_linkJson _ _).mp hreport
      rw [remote_mem_gpuIds hs h] at hnot
      have hgpu := (remoteType_linkOf i l rc active).mp htype
      exact ⟨(state_linkOf i l rc active).mp hstate, hgpu, fun hx => hnot ((hbuf hgpu).mpr hx)⟩
    · intro hr
      obtain ⟨hstate, hgpu, hnot⟩ := hr
      refine ⟨_, (reportOf_linkJson _ _).mpr ⟨(state_linkOf i l rc active).mpr hstate,
        (remoteType_linkOf i l rc active).mpr hgpu, rfl⟩, ?_⟩
      rw [remote_mem_gpuIds hs h]
      intro hx
      exact hnot ((hbuf hgpu).mp hx)
  constructor
  · intro hu hlisted
    unfold Dangling at hu
    rw [gpuDocs_some hs] at hu
    obtain ⟨j, hj, ls, hls, lj, hlj, remote, hreport, hnot⟩ := hu
    obtain ⟨g, ordinal, hg, rfl⟩ := exists_of_mem_gpusJson hj
    obtain ⟨i, bus, hi, hbus, rfl⟩ := (mem_gpus_iff h).mp hg
    rw [linksOf_gpuJson, Option.map_eq_some_iff] at hls
    obtain ⟨links, hlinks, rfl⟩ := hls
    obtain ⟨link, hmem, rfl⟩ := List.mem_map.mp hlj
    cases hstate : lib.linkState with
    | none =>
        have hnone : (gpu lib i bus).value.nvlinks = none := nvlinks_none hstate
        rw [hnone] at hlinks
        cases hlinks
    | some state =>
        obtain ⟨l, hreported, hp⟩ := (@exists_nvlinks_iff lib state i
          (fun link => exists remote, reportOf (linkJson link) = .toGpu remote ∧
            remote ∉ gpuIds (fixtureFacts topo s)) hstate).mp
          ⟨links, hlinks, link, hmem, remote, hreport, hnot⟩
        obtain ⟨⟨hrc, hactive⟩, hgpu, hnone⟩ := (hlink i l _ _).mp hp
        exact hnone (hlisted state hstate i hi l hreported (Prod.ext hrc hactive) hgpu)
  · intro hnot
    unfold LinksListed at hnot
    push Not at hnot
    obtain ⟨state, hstate, i, hi, l, hreported, hactive, hgpu, hnone⟩ := hnot
    obtain ⟨bus, hbus⟩ := exists_busId h hi
    have hg := (mem_gpus_iff h).mpr ⟨i, bus, hi, hbus, rfl⟩
    obtain ⟨links, hlinks, link, hmem, remote, hreport, hremote⟩ :=
      (@exists_nvlinks_iff lib state i
        (fun link => exists remote, reportOf (linkJson link) = .toGpu remote ∧
          remote ∉ gpuIds (fixtureFacts topo s)) hstate).mpr
        ⟨l, hreported, (hlink i l _ _).mpr ⟨⟨congrArg Prod.fst hactive,
          congrArg Prod.snd hactive⟩, hgpu, fun hx => by
            obtain ⟨buf, id, hbuf, hbus, hlists⟩ := hx
            exact hnone buf id hbuf hbus hlists⟩⟩
    obtain ⟨ordinal, hj⟩ := exists_gpuJson_mem hg
    unfold Dangling
    rw [gpuDocs_some hs]
    refine ⟨_, hj, _, ?_, linkJson link, List.mem_map_of_mem hmem, remote, hreport, hremote⟩
    rw [linksOf_gpuJson, show (gpu lib i bus).value.nvlinks = (nvlinks lib i).value from rfl,
      hlinks]
    rfl

end Documents

end

/-!
## Parents
-/

mutual

/-- What is directly above an object is an object of the tree. -/
theorem parent_mem (o : Obj) (above : List Data) {p : Place} (hp : p ∈ o.places above) {d : Data}
    {rest : List Data} (h : p.above = d :: rest) :
    ⟨d, rest⟩ ∈ o.places above ∨ p.above = above := by
  cases o with
  | mk data memory normal io misc =>
      rw [Obj.places, List.mem_cons] at hp
      cases hp with
      | inl hp =>
          right
          rw [hp]
      | inr hp =>
          have hchild : ⟨d, rest⟩ ∈ childPlaces (data :: above) memory normal io misc ∨
              p.above = data :: above := by
            unfold childPlaces
            simp only [List.mem_append] at hp ⊢
            obtain ((hp | hp) | hp) | hp := hp
            · exact (parent_memOf memory _ hp h).imp_left fun hm => .inl (.inl (.inl hm))
            · exact (parent_memOf normal _ hp h).imp_left fun hm => .inl (.inl (.inr hm))
            · exact (parent_memOf io _ hp h).imp_left fun hm => .inl (.inr hm)
            · exact (parent_memOf misc _ hp h).imp_left fun hm => .inr hm
          left
          rw [Obj.places, List.mem_cons]
          cases hchild with
          | inl hmem => exact .inr hmem
          | inr habove =>
              rw [h] at habove
              cases habove
              exact .inl rfl

theorem parent_memOf (os : List Obj) (above : List Data) {p : Place}
    (hp : p ∈ Obj.placesOf above os) {d : Data} {rest : List Data} (h : p.above = d :: rest) :
    ⟨d, rest⟩ ∈ Obj.placesOf above os ∨ p.above = above := by
  cases os with
  | nil => cases hp
  | cons o tail =>
      rw [Obj.placesOf, List.mem_append] at hp
      rw [Obj.placesOf, List.mem_append]
      cases hp with
      | inl hp => exact (parent_mem o above hp h).imp_left .inl
      | inr hp => exact (parent_memOf tail above hp h).imp_left .inr

end

theorem mem_ofType {topo : Hwloc.Topology} {type : ObjType} {p : Place} :
    p ∈ topo.ofType type <-> p ∈ topo.places ∧ p.type = type := by
  unfold Hwloc.Topology.ofType
  rw [List.mem_filter, decide_eq_true_iff]

section

variable {topo : Hwloc.Topology} {s : Read NvmlFacts PcieMaxMap}

theorem mem_pci {f : Topology.PciFacts} (h : f ∈ (fixtureFacts topo s).pci) :
    exists p, p ∈ topo.places ∧ f = builderPci (pciFacts none p) := by
  obtain ⟨f', hf', rfl⟩ := List.mem_map.mp h
  unfold extractHwlocFacts at hf'
  rw [List.mem_append, List.mem_map, List.mem_map] at hf'
  obtain ⟨p, hp, rfl⟩ | ⟨p, hp, rfl⟩ := hf'
  · exact ⟨p, (mem_ofType.mp hp).1, rfl⟩
  · exact ⟨p, (mem_ofType.mp hp).1, rfl⟩

theorem key_mem {p : Place} (hp : p ∈ topo.places) (hpci : p.data.isPci = true) :
    characters p.data.keyOf ∈ (fixtureFacts topo s).pci.map Topology.PciFacts.key := by
  have hmem : pciFacts none p ∈ (extractHwlocFacts topo none).pci := by
    unfold Data.isPci at hpci
    rw [Bool.or_eq_true, decide_eq_true_iff, decide_eq_true_iff] at hpci
    unfold extractHwlocFacts
    rw [List.mem_append]
    cases hpci with
    | inl hbridge => exact .inl (List.mem_map_of_mem (mem_ofType.mpr ⟨hp, hbridge⟩))
    | inr hdevice => exact .inr (List.mem_map_of_mem (mem_ofType.mpr ⟨hp, hdevice⟩))
  exact List.mem_map_of_mem (List.mem_map_of_mem (f := builderPci) hmem)

theorem knownParents : KnownParents (fixtureFacts topo s) := by
  intro f hf hparent
  obtain ⟨p, hp, rfl⟩ := mem_pci hf
  have hkey : (builderPci (pciFacts none p)).parentKey = characters p.parentKey := rfl
  rw [hkey] at hparent ⊢
  unfold Place.parentKey at hparent ⊢
  cases habove : p.above with
  | nil =>
      rw [habove] at hparent
      exact absurd rfl hparent
  | cons d rest =>
      rw [habove] at hparent
      rw [List.head?_cons] at hparent ⊢
      simp only at hparent ⊢
      split_ifs at hparent ⊢ with hpci
      · cases parent_mem topo.root [] hp habove with
        | inl hmem => exact key_mem hmem hpci
        | inr hroot =>
            rw [habove] at hroot
            cases hroot
      · exact absurd rfl hparent

/-!
## Devices that are found
-/

/-- The last entries decide what a key stands for. -/
theorem find?_foldl_insert {ps : List Topology.PciFacts} {k : String}
    (h : k ∈ ps.map Topology.PciFacts.key) (m : OrdMap String Topology.PciFacts) :
    exists p, p ∈ ps ∧ (ps.foldl (fun m p => m.insert p.key p) m).find? k = some p := by
  induction ps using List.reverseRecOn with
  | nil => cases h
  | append_singleton ps q ih =>
      rw [List.foldl_append, List.foldl_cons, List.foldl_nil, OrdMap.find?_insert]
      by_cases hk : k = q.key
      · rw [if_pos hk]
        exact ⟨q, List.mem_append_right _ List.mem_cons_self, rfl⟩
      · rw [if_neg hk]
        rw [List.map_append, List.mem_append] at h
        cases h with
        | inl h =>
            obtain ⟨p, hp, hfind⟩ := ih h
            exact ⟨p, List.mem_append_left _ hp, hfind⟩
        | inr h => exact absurd (List.mem_singleton.mp h) hk

theorem found_of_device {p : Place} (hp : p ∈ topo.ofType .pciDevice) :
    Found (fixtureFacts topo s) (characters p.data.keyOf) := by
  have hpci : (fixtureFacts topo s).pci =
      ((topo.ofType .bridge).map (pciFacts none)).map builderPci ++
        ((topo.ofType .pciDevice).map (pciFacts none)).map builderPci := List.map_append
  have hmem : characters p.data.keyOf ∈ (((topo.ofType .pciDevice).map (pciFacts none)).map
      builderPci).map Topology.PciFacts.key :=
    List.mem_map_of_mem (f := Topology.PciFacts.key)
      (List.mem_map_of_mem (f := builderPci) (List.mem_map_of_mem (f := pciFacts none) hp))
  unfold Found byKey
  rw [hpci, List.foldl_append]
  obtain ⟨f, hf, hfind⟩ := find?_foldl_insert hmem
    ((((topo.ofType .bridge).map (pciFacts none)).map builderPci).foldl
      (fun m p => m.insert p.key p) OrdMap.empty)
  refine ⟨f, hfind, ?_⟩
  obtain ⟨f', hf', rfl⟩ := List.mem_map.mp hf
  obtain ⟨q, hq, rfl⟩ := List.mem_map.mp hf'
  show decide (q.type = .bridge) = false
  rw [(mem_ofType.mp hq).2]
  rfl

theorem pci?_of_pciDevice {p : Place} (h : p.type = .pciDevice) :
    exists pci, p.data.attr.pci? = some pci := by
  unfold Place.type at h
  cases hattr : p.data.attr with
  | pciDevice pci => exact ⟨pci, rfl⟩
  | _ =>
      rw [hattr] at h
      cases h

end

/-- A PCI device of the live tree is found among those of the tree that is read back. -/
theorem found_of_listed {topo topo' : Hwloc.Topology} {s : Read NvmlFacts PcieMaxMap}
    {pcieMax : PcieMaxMap} (hhidden : NothingHidden topo.places)
    (hroot : topo.root.restored pcieMax = [topo'.root]) {id : Bytes}
    (hid : id ∈ hwlocDevices (pcidevs topo)) : Found (fixtureFacts topo' s) (characters id) := by
  unfold hwlocDevices pcidevs at hid
  rw [List.mem_dedup, List.mem_filterMap] at hid
  obtain ⟨pci, hpci, hbus⟩ := hid
  rw [List.mem_filterMap] at hpci
  obtain ⟨p, hp, hattr⟩ := hpci
  obtain ⟨attr, hattr'⟩ := pci?_of_pciDevice (mem_ofType.mp hp).2
  rw [hattr', Option.map_some, Option.some_inj] at hattr
  have hmem : p.restored pcieMax ∈ topo'.ofType .pciDevice := by
    rw [ofType_restored hhidden hroot .pciDevice rfl]
    exact List.mem_map_of_mem hp
  have hkey : (p.restored pcieMax).data.keyOf = id := by
    have hbusId : (p.restored pcieMax).data.busIdOf = some id := by
      rw [show (p.restored pcieMax).data = p.data.restored pcieMax from rfl, busIdOf_restored]
      unfold Data.busIdOf
      rw [hattr', <- hbus, <- hattr]
      rfl
    unfold Data.keyOf
    rw [hbusId]
  rw [<- hkey]
  exact found_of_device hmem

/-!
## Documents of the sources
-/

theorem documents (topo : Hwloc.Topology) (s : Read NvmlFacts PcieMaxMap) :
    Documents (fixtureFacts topo s) := by
  constructor
  · intro hobject
    unfold fixtureFacts at hobject ⊢
    cases hnvml : s.nvml with
    | none =>
        rw [hnvml] at hobject
        cases hobject
    | some facts =>
        refine ⟨gpusJson facts.gpus, rfl, ?_⟩
        intro g hg
        obtain ⟨gpu, ordinal, _, rfl⟩ := exists_of_mem_gpusJson hg
        exact gpuDoc gpu ordinal
  · refine ⟨_, rfl, ?_⟩
    intro r hr
    obtain ⟨port, _, rfl⟩ := List.mem_map.mp hr
    exact ⟨_, rfl⟩
  · refine ⟨_, rfl, ?_⟩
    intro n hn
    obtain ⟨nic, _, rfl⟩ := List.mem_map.mp hn
    exact nicDoc nic
  · exact ⟨_, rfl⟩

section

variable {N P : Type} {i : Inputs N P}

/-- NVML's facts are there when they are required and the query succeeds. -/
theorem readNvml_eq_some {facts : N} :
    (readSources i).1.nvml = some facts <->
      nvmlRequired i.pcidevs = true ∧ i.nvml = some (.ok facts) := by
  show (readNvml i).1 = _ <-> _
  unfold readNvml
  cases nvmlRequired i.pcidevs with
  | false => simp
  | true =>
      cases i.nvml with
      | none => simp
      | some answer =>
          cases answer with
          | error reason => simp
          | ok facts' => simp

theorem mem_hwlocDevices_of_nic {n : NicFacts} (h : n ∈ (readSources i).1.nics) :
    n.busId ∈ hwlocDevices i.pcidevs := by
  have hmem : n ∈ (dropUnlisted (hwlocDevices i.pcidevs) NicFacts.busId
    (dropUnwritableBusIds NicFacts.busId (i.scanNics ((readPorts i).1.getD [])).1).1).1 := h
  unfold dropUnlisted at hmem
  rw [mem_drop, Bool.not_eq_false', List.contains_iff_mem] at hmem
  exact hmem.2

end

theorem root_of_restored {topo topo' : Hwloc.Topology} {pcieMax : PcieMaxMap}
    (h : topo.restored pcieMax = some topo') :
    topo.root.restored pcieMax = [topo'.root] := by
  unfold Hwloc.Topology.restored at h
  split at h
  · rw [Option.some_inj] at h
    rw [<- h]
    assumption
  · cases h

/-!
## When the replay dangles
-/

/-- A run of the tool on a machine: its tree, the tree that is read back, and what the sources
answer.  The GPUs of NVML are devices of the tree. -/
structure Machine where
  topo : Hwloc.Topology
  restored : Hwloc.Topology
  inputs : Inputs NvmlFacts PcieMaxMap
  /-- NVML's library, when it can be loaded. -/
  lib : Option Library
  devices : inputs.pcidevs = pcidevs topo
  answers : inputs.nvml = lib.map fun lib => (query lib).1
  readBack : topo.restored inputs.pcieMax = some restored
  hidden : NothingHidden topo.places
  gpus : forall l facts, lib = some l -> (query l).1 = .ok facts -> forall g, g ∈ facts.gpus ->
    g.busId ∈ hwlocDevices (pcidevs topo)

/-- The model that is built from the files of a machine. -/
def Machine.replay (m : Machine) : Except Topology.Fault Model :=
  build (fixtureFacts m.restored (readSources m.inputs).1)

/-- NVML is not asked or fails, or every active link to a GPU leads to one that it lists. -/
def Machine.Listed (m : Machine) : Prop :=
  nvmlRequired (pcidevs m.topo) = true -> forall lib facts, m.lib = some lib ->
    (query lib).1 = .ok facts -> LinksListed lib

/-- The facts of the files of a machine. -/
def Machine.facts (m : Machine) : Topology.Facts :=
  fixtureFacts m.restored (readSources m.inputs).1

theorem nicIds_found (m : Machine) {id : String} (hid : id ∈ nicIds m.facts) :
    Found m.facts id := by
  unfold nicIds idsOf at hid
  rw [List.mem_filterMap] at hid
  obtain ⟨j, hj, hid⟩ := hid
  have hnics : Topology.Builder.nicDocs m.facts =
      (((readSources m.inputs).1.nics).mergeSort (upTo NicFacts.busId)).map nicJson := rfl
  rw [hnics] at hj
  obtain ⟨n, hn, rfl⟩ := List.mem_map.mp hj
  rw [busIdOf_nicJson, Option.some_inj] at hid
  have hlisted := mem_hwlocDevices_of_nic (List.mem_mergeSort.mp hn)
  rw [m.devices] at hlisted
  rw [<- hid]
  exact found_of_listed m.hidden (root_of_restored m.readBack) hlisted

theorem gpuIds_found (m : Machine) {lib : Library} {facts : NvmlFacts} (hlib : m.lib = some lib)
    (hquery : (query lib).1 = .ok facts) (hnvml : (readSources m.inputs).1.nvml = some facts)
    {id : String} (hid : id ∈ gpuIds m.facts) : Found m.facts id := by
  unfold gpuIds at hid
  have hdocs : gpuDocs m.facts = gpusJson facts.gpus := gpuDocs_some hnvml
  rw [hdocs, idsOf_gpusJson, List.mem_map] at hid
  obtain ⟨g, hg, rfl⟩ := hid
  exact found_of_listed m.hidden (root_of_restored m.readBack)
    (m.gpus lib facts hlib hquery g (List.mem_mergeSort.mp hg))

theorem danglingReference_replay_iff (m : Machine) :
    DanglingReference m.replay <-> ¬ m.Listed := by
  have hdocs : Documents m.facts := documents m.restored (readSources m.inputs).1
  have hparents : KnownParents m.facts := knownParents
  show DanglingReference (build m.facts) <-> _
  cases hnvml : (readSources m.inputs).1.nvml with
  | none =>
      have hgpus : gpuDocs m.facts = [] := gpuDocs_none hnvml
      have hfound : forall id, id ∈ leafIds m.facts -> Found m.facts id := by
        intro id hid
        unfold leafIds gpuIds at hid
        rw [hgpus, List.mem_append] at hid
        cases hid with
        | inl hid => cases hid
        | inr hid => exact nicIds_found m hid
      have hlisted : m.Listed := by
        intro hrequired lib facts hlib hquery
        have hsome : (readSources m.inputs).1.nvml = some facts := by
          rw [readNvml_eq_some, m.devices, m.answers, hlib]
          exact ⟨hrequired, congrArg some hquery⟩
        rw [hnvml] at hsome
        cases hsome
      have hnone : ¬ Dangling m.facts := by
        intro hdangling
        unfold Dangling at hdangling
        rw [hgpus] at hdangling
        obtain ⟨g, hg, _⟩ := hdangling
        cases hg
      rw [danglingReference_build hdocs hparents hfound]
      exact iff_of_false hnone (not_not_intro hlisted)
  | some facts =>
      obtain ⟨hrequired, hanswer⟩ := readNvml_eq_some.mp hnvml
      rw [m.devices] at hrequired
      rw [m.answers, Option.map_eq_some_iff] at hanswer
      obtain ⟨lib, hlib, hquery⟩ := hanswer
      have hfound : forall id, id ∈ leafIds m.facts -> Found m.facts id := by
        intro id hid
        unfold leafIds at hid
        rw [List.mem_append] at hid
        cases hid with
        | inl hid => exact gpuIds_found m hlib hquery hnvml hid
        | inr hid => exact nicIds_found m hid
      have hlisted : m.Listed <-> LinksListed lib := by
        constructor
        · intro h
          exact h hrequired lib facts hlib hquery
        · intro h _ lib' facts' hlib' _
          rw [hlib] at hlib'
          cases hlib'
          exact h
      rw [danglingReference_build hdocs hparents hfound, hlisted]
      exact dangling_iff hnvml hquery

/-- The replay of a capture finds every device, exactly when its links lead to listed GPUs. -/
theorem replay_complete_iff (m : Machine) : ¬ DanglingReference m.replay <-> m.Listed := by
  rw [danglingReference_replay_iff, not_not]

/-!
## A link to a GPU that the process cannot see
-/

/-- One GPU, whose first link is active and leads to a GPU on another bus. -/
def strayLib : Library :=
  { hasRequired := true
    init := .success
    count := (.success, 1)
    handle := fun _ => .success
    pci := fun _ => (.success, ascii "00000000:0A:00.0")
    name := none
    cc := none
    memory := none
    linkState := some fun _ l => if l = 0 then (.success, true) else (.invalidArgument, false)
    linkVersion := none
    linkType := some fun _ _ => (.success, .gpu)
    linkPci := some fun _ _ => (.success, ascii "00000000:0B:00.0")
    p2p := none
    uuid := none
    serial := none
    board := none
    driver := none
    cuda := none }

theorem busId_stray : busId (ascii "00000000:0A:00.0") = .ok (ascii "0000:0a:00.0") := by rfl

theorem busId_strayRemote : busId (ascii "00000000:0B:00.0") = .ok (ascii "0000:0b:00.0") := by
  rfl

/-- The machine of that GPU, without NICs. -/
def strayLink : Machine where
  topo := oneGpu
  restored := { oneGpu with
    root := (oneGpu.root.restored fun _ => none).headD oneGpu.root }
  inputs :=
    { pcidevs := pcidevs oneGpu
      nvml := some (query strayLib).1
      gpus := fun facts => facts.gpus.length
      verbs := none
      infiniband := []
      scanNics := fun _ => ([], [])
      pcieMax := fun _ => none
      pcieMaxSize := 0
      msSince := fun _ => [] }
  lib := some strayLib
  devices := rfl
  answers := rfl
  readBack := rfl
  hidden := oneGpu_nothingHidden
  gpus := by
    intro lib facts hlib hquery g hg
    cases hlib
    obtain ⟨i, bus, _, hbus, rfl⟩ := (mem_gpus_iff hquery).mp hg
    have hsame : busId (strayLib.pci i).2 = .ok (ascii "0000:0a:00.0") := busId_stray
    rw [hsame] at hbus
    cases hbus
    show ascii "0000:0a:00.0" ∈ hwlocDevices (pcidevs oneGpu)
    decide

theorem dangling_strayLink : DanglingReference strayLink.replay := by
  rw [danglingReference_replay_iff]
  intro hlisted
  have hquery : exists facts, (query strayLib).1 = .ok facts := ⟨_, rfl⟩
  obtain ⟨facts, hquery⟩ := hquery
  have hreported : Reported (fun _ l => if l = 0 then (.success, true) else
      (.invalidArgument, false)) 0 0 := by
    constructor
    · decide
    · intro k hk
      rw [Nat.le_zero.mp hk]
      decide
    · decide
  obtain ⟨buf, id, hbuf, hbus, j, _, hlists⟩ := hlisted (by decide) strayLib facts rfl hquery _
    rfl 0 (by decide) 0 hreported rfl rfl
  cases hbuf
  have hremote := busId_strayRemote
  have hself : busId (strayLib.pci j).2 = .ok (ascii "0000:0a:00.0") := busId_stray
  rw [hremote] at hbus
  rw [hself, <- hbus] at hlists
  exact absurd (Except.ok.inj hlists) (by decide)

end Replay
end Capture
end Ostia

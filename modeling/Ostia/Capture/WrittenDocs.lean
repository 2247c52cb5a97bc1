import Ostia.Capture.Writers
import Ostia.Topology.BuilderNvlinks

/-!
# What the builder reads of a capture's documents

The documents hold every member that the builder reads.  What a link reports, and what the links
of a GPU are, is told by the answers of NVML.
-/

namespace Ostia
namespace Capture
namespace Writers

open Nvml Sources
open Ostia.Topology (Json)
open Ostia.Topology.Builder (GpuDoc LinkDoc NicDoc busIdOf idsOf linksOf memberIs remoteName
  reportOf)

/-!
## Characters
-/

theorem characters_injective : Function.Injective characters := by
  intro a b h
  have hlist : a.map (fun c => Char.ofNat c.toNat) = b.map fun c => Char.ofNat c.toNat := by
    have htoList := congrArg String.toList h
    unfold characters at htoList
    rwa [String.toList_ofList, String.toList_ofList] at htoList
  have hbyte : Function.Injective fun c : UInt8 => Char.ofNat c.toNat := by
    intro c d hcd
    have hvalid : forall e : UInt8, (Char.ofNat e.toNat).toNat = e.toNat := by
      apply Bytes.forall_byte
      decide +kernel
    have hnat := congrArg Char.toNat hcd
    simp only [hvalid] at hnat
    exact UInt8.toNat_inj.mp hnat
  exact hbyte.list_map hlist

/-!
## Links
-/

theorem linkDoc (link : NvLink) : LinkDoc (linkJson link) := by
  unfold linkJson
  cases link.remoteBusId with
  | none =>
      constructor
      · exact ⟨_, rfl⟩
      · exact ⟨_, rfl⟩
      · intro v hv
        cases hv
      · exact ⟨_, rfl⟩
  | some id =>
      constructor
      · exact ⟨_, rfl⟩
      · exact ⟨_, rfl⟩
      · intro v hv
        exact ⟨characters id, (Option.some.inj hv).symm⟩
      · exact ⟨_, rfl⟩

theorem memberIs_of_get? {j : Json} {key : String} {text : Bytes} (value : String)
    (h : j.get? key = some (str text)) :
    memberIs j key value = true <-> characters text = value := by
  unfold memberIs
  rw [h]
  exact beq_iff_eq

theorem get?_state (link : NvLink) : (linkJson link).get? "state" = some (str link.state) := by
  unfold linkJson
  cases link.remoteBusId <;> rfl

theorem get?_remoteType (link : NvLink) :
    (linkJson link).get? "remote_type" = some (str link.remoteType) := by
  unfold linkJson
  cases link.remoteBusId <;> rfl

/-- An absent other end is read as an empty text. -/
theorem remoteName_linkJson (link : NvLink) :
    remoteName (linkJson link) = characters (link.remoteBusId.getD []) := by
  unfold remoteName linkJson
  cases link.remoteBusId <;> rfl

theorem characters_eq_iff {text : Bytes} {s : String} {t : Bytes} (h : characters t = s) :
    characters text = s <-> text = t := by
  rw [<- h]
  exact characters_injective.eq_iff

/-- An active link to a GPU reports its other end. -/
theorem reportOf_linkJson (link : NvLink) (remote : String) :
    reportOf (linkJson link) = .toGpu remote <->
      link.state = ascii "active" ∧ link.remoteType = ascii "gpu" ∧
        remote = characters (link.remoteBusId.getD []) := by
  have hstate := memberIs_of_get? "active" (get?_state link)
  have hswitch := memberIs_of_get? "switch" (get?_remoteType link)
  have hgpu := memberIs_of_get? "gpu" (get?_remoteType link)
  rw [characters_eq_iff (t := ascii "active") (by decide)] at hstate
  rw [characters_eq_iff (t := ascii "switch") (by decide)] at hswitch
  rw [characters_eq_iff (t := ascii "gpu") (by decide)] at hgpu
  unfold reportOf
  rw [remoteName_linkJson]
  split_ifs with ha hs hg
  · constructor
    · intro h
      cases h
    · intro h
      rw [hswitch, h.2.1] at hs
      exact absurd hs (by decide)
  · rw [Topology.Builder.LinkReport.toGpu.injEq]
    constructor
    · intro h
      exact ⟨hstate.mp ha, hgpu.mp hg, h.symm⟩
    · intro h
      exact h.2.2.symm
  · constructor
    · intro h
      cases h
    · intro h
      exact absurd (hgpu.mpr h.2.1) hg
  · constructor
    · intro h
      cases h
    · intro h
      exact absurd (hstate.mpr h.1) ha

/-!
## GPUs and NICs
-/

theorem linksOf_gpuJson (gpu : Gpu) (ordinal : Nat) :
    linksOf (gpuJson gpu ordinal) = gpu.nvlinks.map fun links => links.map linkJson := by
  unfold linksOf
  rw [show (gpuJson gpu ordinal).get? "nvlinks" = some (linksJson gpu.nvlinks) from rfl]
  cases gpu.nvlinks <;> rfl

theorem gpuDoc (gpu : Gpu) (ordinal : Nat) : GpuDoc (gpuJson gpu ordinal) := by
  constructor
  · exact ⟨_, rfl⟩
  · exact ⟨_, rfl⟩
  · exact ⟨_, rfl⟩
  · exact ⟨_, rfl⟩
  · exact ⟨_, rfl⟩
  · exact ⟨_, rfl⟩
  · refine ⟨linksJson gpu.nvlinks, rfl, ?_⟩
    intro ls hls l hl
    cases hlinks : gpu.nvlinks with
    | none =>
        rw [hlinks] at hls
        cases hls
    | some links =>
        rw [hlinks] at hls
        cases hls
        obtain ⟨link, _, rfl⟩ := List.mem_map.mp hl
        exact linkDoc link

theorem nicDoc (n : NicFacts) : NicDoc (nicJson n) := by
  constructor
  · exact ⟨_, rfl⟩
  · exact ⟨_, rfl⟩
  · exact ⟨_, rfl⟩
  · exact ⟨_, rfl⟩
  · refine ⟨speedValue n.portSpeedMbps, rfl, ?_⟩
    cases n.portSpeedMbps with
    | inl speed => exact .inr ⟨speed, rfl⟩
    | inr text => exact .inl ⟨_, rfl⟩

theorem busIdOf_gpuJson (gpu : Gpu) (ordinal : Nat) :
    busIdOf (gpuJson gpu ordinal) = some (characters gpu.busId) := rfl

theorem busIdOf_nicJson (n : NicFacts) : busIdOf (nicJson n) = some (characters n.busId) := rfl

/-- The records name the GPUs in the order of their bus IDs. -/
theorem idsOf_gpusJson (gpus : List Gpu) :
    idsOf (gpusJson gpus) =
      (gpus.mergeSort (upTo Gpu.busId)).map fun gpu => characters gpu.busId := by
  have hfrom : forall (gpus : List Gpu) (k : Nat),
      idsOf ((gpus.zipIdx k).map fun p => gpuJson p.1 p.2) =
        gpus.map fun gpu => characters gpu.busId := by
    intro gpus
    induction gpus with
    | nil =>
        intro k
        rfl
    | cons gpu rest ih =>
        intro k
        rw [List.zipIdx_cons, List.map_cons, Topology.Builder.idsOf_cons, busIdOf_gpuJson, ih,
          List.map_cons]
        rfl
  unfold gpusJson
  rw [List.mapIdx_eq_zipIdx_map]
  exact hfrom _ 0

theorem exists_of_mem_gpusJson {gpus : List Gpu} {j : Json} (h : j ∈ gpusJson gpus) :
    exists gpu ordinal, gpu ∈ gpus ∧ j = gpuJson gpu ordinal := by
  unfold gpusJson at h
  rw [List.mapIdx_eq_zipIdx_map, List.mem_map] at h
  obtain ⟨p, hp, rfl⟩ := h
  refine ⟨p.1, p.2, ?_, rfl⟩
  exact List.mem_mergeSort.mp (List.fst_mem_of_mem_zipIdx hp)

theorem exists_gpuJson_mem {gpus : List Gpu} {gpu : Gpu} (h : gpu ∈ gpus) :
    exists ordinal, gpuJson gpu ordinal ∈ gpusJson gpus := by
  obtain ⟨k, hk, hget⟩ := List.getElem_of_mem
    (List.mem_mergeSort.mpr h : gpu ∈ gpus.mergeSort (upTo Gpu.busId))
  refine ⟨k, ?_⟩
  unfold gpusJson
  rw [List.mem_mapIdx]
  exact ⟨k, hk, by rw [hget]⟩

end Writers
end Capture
end Ostia

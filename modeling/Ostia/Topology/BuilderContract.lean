import Ostia.Topology.BuilderGraph

/-!
# The contract of the builder

Validated documents and known PCI parents never break the builder or the
identity.  When the facts also fit together, the built model has one node for
each key and no dangling edge.
-/

namespace Ostia
namespace Topology

open Foundation
open Schema (Env)

namespace Builder

/-- Build a machine's model and identify it. -/
def identify (dump : Json -> String) (sha256Hex : String -> String) (facts : Facts) :
    Except Fault String := do
  let model ← build facts
  match Identity.topo1 dump sha256Hex model with
  | .ok id => .ok id
  | .error e => .error (.topology e)

theorem identify_sane (dump : Json -> String) (sha256Hex : String -> String)
    {facts : Facts} (hdocs : Documents facts) (hparents : KnownParents facts) :
    Sane (identify dump sha256Hex facts) := by
  unfold identify
  apply Sane.bind (build_sane hdocs hparents)
  intro model _
  cases Identity.topo1 dump sha256Hex model with
  | ok id => exact Sane.ok id
  | error e =>
      intro fault h
      injection h with h
      exact ⟨e, h.symm⟩

/-!
## The built model
-/

theorem gpuEntries_gpuDocs {facts : Facts} (h : Documents facts) :
    gpuEntries facts = .ok (gpuDocs facts) ∧ forall g, g ∈ gpuDocs facts -> GpuDoc g := by
  unfold gpuEntries gpuDocs
  cases hobject : facts.nvml.isObject with
  | false =>
      constructor
      · rfl
      · intro g hg
        cases hg
  | true =>
      rcases h.gpus hobject with ⟨gs, hget, hall⟩
      rw [if_pos rfl, if_pos rfl, member_of_get? hget, hget]
      exact ⟨rfl, hall⟩

/-- The link tables that the records of the GPUs add up to. -/
def tablesOf (gpus : List Json) : LinkTables :=
  (rowsOf gpus).foldl addReports ⟨OrdMap.empty, OrdMap.empty, OrdMap.empty⟩

/-- The intermediate results of a build that succeeds. -/
structure Trace (facts : Facts) where
  gpus : List Json
  gpuNodes : List Node
  rdma : Json
  rdmaIds : List String
  nics : Json
  nicNodes : List Node
  kept : StringSet
  tables : LinkTables
  gpus_eq : gpuEntries facts = .ok gpus
  gpuNodes_eq : gpus.mapM (gpuNode (byKey facts)) = .ok gpuNodes
  rdma_eq : member facts.nics "rdma" = .ok rdma
  rdmaIds_eq : (elements rdma).mapM (fun r => stringMember r "bus_id") = .ok rdmaIds
  nics_eq : member facts.nics "nics" = .ok nics
  nicNodes_eq : (elements nics).mapM (nicNode (byKey facts) facts.nics (setOf rdmaIds)) =
    .ok nicNodes
  kept_eq : keepBridges (byKey facts)
    (setOf (gpuNodes.map Node.key ++ nicNodes.map Node.key)) = .ok kept
  tables_eq : linkTables (setOf (gpuNodes.map Node.key)) gpus = .ok tables

namespace Trace

variable {facts : Facts} (t : Trace facts)

def leaves : StringSet := setOf (t.gpuNodes.map Node.key ++ t.nicNodes.map Node.key)

def model : Model :=
  { nodes := hostNodes facts ++ t.gpuNodes ++ t.nicNodes ++
      facts.pci.flatMap (bridgeNodes t.kept) ++ switchNodes t.tables
    edges := facts.pci.flatMap (pciEdges t.kept t.leaves) ++ pairEdges t.tables ++
      switchEdges t.tables }

end Trace

theorem build_eq_ok {facts : Facts} {model : Model} :
    build facts = .ok model <-> exists t : Trace facts, t.model = model := by
  constructor
  · intro h
    unfold build at h
    simp only [Fallible.bind_eq_ok] at h
    rcases h with ⟨gpus, hgpus, gpuNodes, hgpuNodes, rdma, hrdma, rdmaIds, hrdmaIds,
      nics, hnics, nicNodes, hnicNodes, kept, hkept, tables, htables, hmodel⟩
    injection hmodel with hmodel
    exact ⟨⟨gpus, gpuNodes, rdma, rdmaIds, nics, nicNodes, kept, tables, hgpus, hgpuNodes,
      hrdma, hrdmaIds, hnics, hnicNodes, hkept, htables⟩, hmodel⟩
  · intro h
    rcases h with ⟨t, rfl⟩
    unfold build
    simp only [Fallible.bind_eq_ok]
    exact ⟨t.gpus, t.gpus_eq, t.gpuNodes, t.gpuNodes_eq, t.rdma, t.rdma_eq, t.rdmaIds,
      t.rdmaIds_eq, t.nics, t.nics_eq, t.nicNodes, t.nicNodes_eq, t.kept, t.kept_eq,
      t.tables, t.tables_eq, rfl⟩

theorem member_eq_ok {j v : Json} {key : String} :
    member j key = .ok v <-> j.get? key = some v := by
  constructor
  · intro h
    cases j with
    | obj fields =>
        unfold member at h
        dsimp only at h
        show OrdMap.lookup key fields = some v
        cases hlookup : OrdMap.lookup key fields with
        | none =>
            rw [hlookup] at h
            cases h
        | some w =>
            rw [hlookup] at h
            injection h with h
            rw [h]
    | _ => cases h
  · exact member_of_get?

theorem gpuNode_busId {pci : OrdMap String PciFacts} {g : Json} {node : Node}
    (h : gpuNode pci g = .ok node) : stringMember g "bus_id" = .ok node.key := by
  unfold gpuNode at h
  simp only [Fallible.bind_eq_ok] at h
  rcases h with ⟨id, hid, p, hp, name, hname, major, hmajor, minor, hminor, memory,
    hmemory, ordinal, hordinal, hnode⟩
  injection hnode with hnode
  rw [hid, ← hnode]

theorem nicNode_busId {pci : OrdMap String PciFacts} {nics : Json} {rdma : StringSet}
    {n : Json} {node : Node} (h : nicNode pci nics rdma n = .ok node) :
    stringMember n "bus_id" = .ok node.key := by
  unfold nicNode at h
  simp only [Fallible.bind_eq_ok] at h
  rcases h with ⟨id, hid, p, hp, driver, hdriver, layer, hlayer, numa, hnuma, speed,
    hspeed, value, hvalue, probe, hprobe, hnode⟩
  injection hnode with hnode
  rw [hid, ← hnode]

theorem idsOf_eq {entries : List Json} {nodes : List Node}
    (h : List.Forall₂ (fun g node => stringMember g "bus_id" = .ok node.key) entries nodes) :
    idsOf entries = nodes.map Node.key := by
  induction h with
  | nil => rfl
  | @cons g node _ _ hg _ ih =>
      have hid : busIdOf g = some node.key := by
        unfold stringMember at hg
        rw [Fallible.bind_eq_ok] at hg
        rcases hg with ⟨v, hv, hg⟩
        cases v with
        | str s =>
            injection hg with hg
            rw [← hg]
            exact busIdOf_eq (member_eq_ok.mp hv)
        | _ => cases hg
      unfold idsOf at ih ⊢
      rw [List.filterMap_cons_some hid, ih, List.map_cons]

theorem Trace.gpuDocs_eq {facts : Facts} (t : Trace facts) : gpuDocs facts = t.gpus := by
  have hgpus := t.gpus_eq
  unfold gpuEntries at hgpus
  unfold gpuDocs
  split_ifs at hgpus ⊢
  · rw [Fallible.bind_eq_ok] at hgpus
    rcases hgpus with ⟨v, hv, hgpus⟩
    injection hgpus with hgpus
    rw [member_eq_ok.mp hv, ← hgpus]
    rfl
  · injection hgpus

theorem Trace.gpuIds_eq {facts : Facts} (t : Trace facts) :
    gpuIds facts = t.gpuNodes.map Node.key := by
  unfold gpuIds
  rw [t.gpuDocs_eq]
  exact idsOf_eq ((Fallible.mapM_eq_ok.mp t.gpuNodes_eq).imp fun _ _ h => gpuNode_busId h)

theorem Trace.nicIds_eq {facts : Facts} (t : Trace facts) :
    nicIds facts = t.nicNodes.map Node.key := by
  have hdocs : nicDocs facts = elements t.nics := by
    unfold nicDocs
    rw [member_eq_ok.mp t.nics_eq]
    rfl
  unfold nicIds
  rw [hdocs]
  exact idsOf_eq ((Fallible.mapM_eq_ok.mp t.nicNodes_eq).imp fun _ _ h => nicNode_busId h)

/-- The facts of a machine fit together. -/
structure Consistent (facts : Facts) : Prop where
  leaves : (leafIds facts).Nodup
  devices : forall id, id ∈ leafIds facts ->
    exists p, p ∈ facts.pci ∧ p.key = id ∧ p.bridge = false
  ancestors : forall leaf k, leaf ∈ leafIds facts ->
    Relation.TransGen (ParentOf (byKey facts)) leaf k ->
    forall p, p ∈ facts.pci -> p.key = k -> p.bridge = true ∨ k ∈ leafIds facts
  numaNodes : facts.numaNodes.Nodup
  numa : forall p, p ∈ facts.pci -> forall n, n ∈ p.numa -> n ∈ facts.numaNodes
  remotes : RemotesIn (gpuIds facts) (gpuDocs facts)
  packageKeys : forall p, p ∈ facts.pci -> forall i, i < facts.packages.toNat ->
    p.key ≠ packageKey i
  numaKeys : forall p, p ∈ facts.pci -> forall n, n ∈ facts.numaNodes -> p.key ≠ numaKey n
  switchKey : forall p, p ∈ facts.pci -> p.key ≠ kSwitchGroup

theorem byKey_of_mem {facts : Facts} (hkeys : (facts.pci.map PciFacts.key).Nodup)
    {p : PciFacts} (hp : p ∈ facts.pci) : (byKey facts).find? p.key = some p := by
  rcases byKey_find? facts p.key with ⟨hfrom, hsome⟩
  rcases Option.isSome_iff_exists.mp (hsome (List.mem_map_of_mem hp)) with ⟨q, hq⟩
  rw [hq, List.inj_on_of_nodup_map hkeys (hfrom q hq).1 hp (hfrom q hq).2]

/-- What the builder reads and keeps before it comes to the NVLinks. -/
structure Parts (facts : Facts) where
  gpuNodes : List Node
  rdma : Json
  rdmaIds : List String
  nics : Json
  nicNodes : List Node
  kept : StringSet
  gpus_eq : gpuEntries facts = .ok (gpuDocs facts)
  gpuNodes_eq : (gpuDocs facts).mapM (gpuNode (byKey facts)) = .ok gpuNodes
  rdma_eq : member facts.nics "rdma" = .ok rdma
  rdmaIds_eq : (elements rdma).mapM (fun r => stringMember r "bus_id") = .ok rdmaIds
  nics_eq : member facts.nics "nics" = .ok nics
  nicNodes_eq : (elements nics).mapM (nicNode (byKey facts) facts.nics (setOf rdmaIds)) =
    .ok nicNodes
  kept_eq : keepBridges (byKey facts)
    (setOf (gpuNodes.map Node.key ++ nicNodes.map Node.key)) = .ok kept

/-- The trace that the tables complete. -/
def Parts.trace {facts : Facts} (p : Parts facts) (tables : LinkTables)
    (h : linkTables (setOf (p.gpuNodes.map Node.key)) (gpuDocs facts) = .ok tables) :
    Trace facts :=
  ⟨gpuDocs facts, p.gpuNodes, p.rdma, p.rdmaIds, p.nics, p.nicNodes, p.kept, tables, p.gpus_eq,
    p.gpuNodes_eq, p.rdma_eq, p.rdmaIds_eq, p.nics_eq, p.nicNodes_eq, p.kept_eq, h⟩

/-- Only the NVLinks can break the build of validated documents with known devices. -/
theorem exists_parts {facts : Facts} (hdocs : Documents facts)
    (hparents : KnownParents facts)
    (hdevices : forall id, id ∈ leafIds facts ->
      exists p, (byKey facts).find? id = some p ∧ p.bridge = false) :
    exists p : Parts facts, p.gpuNodes.map Node.key = gpuIds facts ∧
      p.nicNodes.map Node.key = nicIds facts := by
  rcases gpuEntries_gpuDocs hdocs with ⟨hgpus, hgpuDocs⟩
  rcases hdocs.rdma with ⟨rs, hrdma, hrdmaDocs⟩
  rcases hdocs.nics with ⟨ns, hnics, hnicDocs⟩
  rcases hdocs.probe with ⟨probe, hprobe⟩
  have hnicEntries : nicDocs facts = ns := by
    unfold nicDocs
    rw [hnics]
    rfl
  rcases gpuNodes_ok hgpuDocs
    (fun id hid => hdevices id (List.mem_append_left _ hid)) with
    ⟨gpuNodes, hgpuNodes, hgpuKeys⟩
  change gpuNodes.map Node.key = gpuIds facts at hgpuKeys
  have hrdmaIds : exists ids,
      (elements (Json.arr rs)).mapM (fun r => stringMember r "bus_id") = .ok ids := by
    apply Fallible.exists_mapM_eq_ok
    intro r hr
    rcases hrdmaDocs r hr with ⟨s, hs⟩
    exact ⟨s, stringMember_of_get? hs⟩
  rcases hrdmaIds with ⟨rdmaIds, hrdmaIds⟩
  have hnicDevices : forall id, id ∈ idsOf ns ->
      exists p, (byKey facts).find? id = some p ∧ p.bridge = false := by
    intro id hid
    apply hdevices id (List.mem_append_right _ _)
    unfold nicIds
    rw [hnicEntries]
    exact hid
  rcases nicNodes_ok (setOf rdmaIds) hprobe hnicDocs hnicDevices with
    ⟨nicNodes, hnicNodes, hnicKeys⟩
  have hnicIds : nicNodes.map Node.key = nicIds facts := by
    unfold nicIds
    rw [hnicKeys, hnicEntries]
  have hids : gpuNodes.map Node.key ++ nicNodes.map Node.key = leafIds facts := by
    rw [hgpuKeys, hnicIds]
    rfl
  have hleaves : forall l, l ∈ OrdMap.keys (setOf (leafIds facts)) ->
      ((byKey facts).find? l).isSome := by
    intro l hl
    rw [OrdMap.mem_keys, setOf_contains] at hl
    rcases hdevices l hl with ⟨p, hp, _⟩
    rw [hp]
    rfl
  rcases keepBridges_ok (parentsKnown_byKey hparents) hleaves with ⟨kept, hkept⟩
  rw [← hids] at hkept
  exact ⟨⟨gpuNodes, Json.arr rs, rdmaIds, Json.arr ns, nicNodes, kept, hgpus, hgpuNodes,
    member_of_get? hrdma, hrdmaIds, member_of_get? hnics, hnicNodes, hkept⟩, hgpuKeys, hnicIds⟩

/-- The trace of a build of validated documents, with what it keeps. -/
theorem exists_trace {facts : Facts} (hdocs : Documents facts)
    (hparents : KnownParents facts)
    (hdevices : forall id, id ∈ leafIds facts ->
      exists p, (byKey facts).find? id = some p ∧ p.bridge = false)
    (hremotes : RemotesIn (gpuIds facts) (gpuDocs facts)) :
    exists t : Trace facts, t.gpuNodes.map Node.key = gpuIds facts ∧
      t.nicNodes.map Node.key = nicIds facts ∧ t.tables = tablesOf (gpuDocs facts) := by
  rcases exists_parts hdocs hparents hdevices with ⟨p, hgpuKeys, hnicKeys⟩
  have htables : linkTables (setOf (p.gpuNodes.map Node.key)) (gpuDocs facts) =
      .ok (tablesOf (gpuDocs facts)) := by
    rw [hgpuKeys]
    exact linkTables_ok (gpuEntries_gpuDocs hdocs).2 hremotes
  exact ⟨p.trace _ htables, hgpuKeys, hnicKeys, rfl⟩

/-!
## Keys and ends
-/

def hostKeys (facts : Facts) : List String :=
  (List.range facts.packages.toNat).map packageKey ++ facts.numaNodes.map numaKey

def bridgeKeys (facts : Facts) (kept : StringSet) : List String :=
  (facts.pci.filter fun p => kept.contains p.key && p.bridge).map PciFacts.key

theorem hostNodes_keys (facts : Facts) :
    (hostNodes facts).map Node.key = hostKeys facts := by
  unfold hostNodes hostKeys
  rw [List.map_append, List.map_map, List.map_map]
  rfl

theorem bridgeNodes_keys (pci : List PciFacts) (kept : StringSet) :
    (pci.flatMap (bridgeNodes kept)).map Node.key =
      (pci.filter fun p => kept.contains p.key && p.bridge).map PciFacts.key := by
  induction pci with
  | nil => rfl
  | cons p rest ih =>
      rw [List.flatMap_cons, List.map_append, ih, List.filter_cons]
      unfold bridgeNodes
      by_cases h : (kept.contains p.key && p.bridge) = true
      · rw [if_pos h, if_pos (by simpa using h)]
        rfl
      · rw [if_neg h, if_neg (by simpa using h)]
        rfl

theorem mem_pciEdges {kept leaves : StringSet} {p : PciFacts} {e : Edge} :
    e ∈ pciEdges kept leaves p <-> kept.contains p.key = true ∧
      ((p.parentKey ≠ "" ∧ e = ⟨EdgeKind.pcie, p.parentKey, p.key, pcieAttrs p⟩) ∨
        (leaves.contains p.key = true ∧ exists n, n ∈ p.numa ∧
          e = ⟨EdgeKind.numaLocal, p.key, numaKey n, OrdMap.empty⟩)) := by
  unfold pciEdges
  by_cases hkept : kept.contains p.key = true
  · rw [if_pos hkept, List.mem_append]
    by_cases hparent : p.parentKey = ""
    · by_cases hleaf : leaves.contains p.key = true
      · simp [hkept, hparent, hleaf, eq_comm]
      · simp [hkept, hparent, hleaf]
    · by_cases hleaf : leaves.contains p.key = true
      · simp [hkept, hparent, hleaf, eq_comm]
      · simp [hkept, hparent, hleaf]
  · simp [hkept]

theorem hostKeys_nodup {facts : Facts} (h : facts.numaNodes.Nodup) :
    (hostKeys facts).Nodup := by
  unfold hostKeys
  rw [List.nodup_append]
  refine ⟨List.Nodup.map packageKey_injective List.nodup_range,
    List.Nodup.map numaKey_injective h, ?_⟩
  intro k hk k' hk' heq
  rcases List.mem_map.mp hk with ⟨i, _, rfl⟩
  rcases List.mem_map.mp hk' with ⟨n, _, rfl⟩
  exact (key_groups i n).1 heq

theorem switchKey_notMem_hostKeys (facts : Facts) : kSwitchGroup ∉ hostKeys facts := by
  intro h
  rcases List.mem_append.mp h with h | h
  · rcases List.mem_map.mp h with ⟨i, _, heq⟩
    exact (key_groups i 0).2.1 heq
  · rcases List.mem_map.mp h with ⟨n, _, heq⟩
    exact (key_groups 0 n).2.2 heq

section Closed

variable {facts : Facts} (h : Consistent facts)
  (hkeys : (facts.pci.map PciFacts.key).Nodup)

include h

theorem Consistent.pciKey_notMem_hostKeys {p : PciFacts} (hp : p ∈ facts.pci) :
    p.key ∉ hostKeys facts := by
  intro hmem
  rcases List.mem_append.mp hmem with hmem | hmem
  · rcases List.mem_map.mp hmem with ⟨i, hi, heq⟩
    exact h.packageKeys p hp i (List.mem_range.mp hi) heq.symm
  · rcases List.mem_map.mp hmem with ⟨n, hn, heq⟩
    exact h.numaKeys p hp n hn heq.symm

include hkeys

theorem Consistent.deviceKeys_nodup (kept : StringSet) :
    (leafIds facts ++ bridgeKeys facts kept).Nodup := by
  rw [List.nodup_append]
  refine ⟨h.leaves, List.Nodup.sublist (List.Sublist.map _ List.filter_sublist) hkeys, ?_⟩
  intro k hk k' hk' heq
  rcases h.devices k hk with ⟨p, hp, hpk, hbridge⟩
  rcases List.mem_map.mp hk' with ⟨q, hq, hqk⟩
  rcases List.mem_filter.mp hq with ⟨hq, hkept⟩
  have hpq : p = q := List.inj_on_of_nodup_map hkeys hp hq (by rw [hpk, hqk, heq])
  rw [← hpq, hbridge, Bool.and_false] at hkept
  cases hkept

theorem Consistent.nodeKeys_nodup (kept : StringSet) (tables : LinkTables) :
    (hostKeys facts ++ (leafIds facts ++ bridgeKeys facts kept) ++
      (switchNodes tables).map Node.key).Nodup := by
  have hpci : forall k, k ∈ leafIds facts ++ bridgeKeys facts kept ->
      exists p, p ∈ facts.pci ∧ p.key = k := by
    intro k hk
    rcases List.mem_append.mp hk with hk | hk
    · rcases h.devices k hk with ⟨p, hp, hpk, _⟩
      exact ⟨p, hp, hpk⟩
    · rcases List.mem_map.mp hk with ⟨p, hp, hpk⟩
      exact ⟨p, (List.mem_filter.mp hp).1, hpk⟩
  have hswitch : forall k, k ∈ (switchNodes tables).map Node.key -> k = kSwitchGroup := by
    intro k hk
    unfold switchNodes at hk
    split_ifs at hk
    · cases hk
    · exact List.mem_singleton.mp hk
  rw [List.nodup_append, List.nodup_append]
  refine ⟨⟨hostKeys_nodup h.numaNodes, h.deviceKeys_nodup hkeys kept, ?_⟩, ?_, ?_⟩
  · intro k hk k' hk' heq
    rcases hpci k' hk' with ⟨p, hp, hpk⟩
    rw [heq, ← hpk] at hk
    exact h.pciKey_notMem_hostKeys hp hk
  · unfold switchNodes
    split_ifs
    · exact List.nodup_nil
    · exact List.nodup_singleton _
  · intro k hk k' hk' heq
    rw [hswitch k' hk'] at heq
    rw [heq] at hk
    rcases List.mem_append.mp hk with hk | hk
    · exact switchKey_notMem_hostKeys facts hk
    · rcases hpci _ hk with ⟨p, hp, hpk⟩
      exact h.switchKey p hp hpk

/-- A kept PCI entry is a device or a bridge of the model. -/
theorem Consistent.mem_of_kept {kept : StringSet}
    (hkept : keepBridges (byKey facts) (setOf (leafIds facts)) = .ok kept) {p : PciFacts}
    (hp : p ∈ facts.pci) (hmem : kept.contains p.key = true) :
    p.key ∈ leafIds facts ++ bridgeKeys facts kept ∧
      (p.parentKey = "" ∨ kept.contains p.parentKey = true) := by
  have hspec := keepBridges_spec (P := fun k => k ∈ leafIds facts ∨
    exists leaf, leaf ∈ leafIds facts ∧
      Relation.TransGen (ParentOf (byKey facts)) leaf k) ?_ ?_ hkept
  · rcases hspec.2 p.key hmem with ⟨hP, hparent⟩
    constructor
    · rw [List.mem_append]
      have hbridge : p.bridge = true ∨ p.key ∈ leafIds facts := by
        rcases hP with hleaf | ⟨leaf, hleaf, hancestor⟩
        · exact Or.inr hleaf
        · exact h.ancestors leaf p.key hleaf hancestor p hp rfl
      rcases hbridge with hbridge | hleaf
      · right
        refine List.mem_map_of_mem (List.mem_filter.mpr ⟨hp, ?_⟩)
        rw [hmem, hbridge]
        rfl
      · exact Or.inl hleaf
    · exact hparent p (byKey_of_mem hkeys hp)
  · intro k k' hk hparent
    right
    rcases hk with hk | ⟨leaf, hleaf, hancestor⟩
    · exact ⟨k, hk, Relation.TransGen.single hparent⟩
    · exact ⟨leaf, hleaf, hancestor.tail hparent⟩
  · intro l hl
    exact Or.inl (setOf_contains.mp hl)

/-- The ends of the PCI and NUMA edges of a kept entry. -/
theorem Consistent.pciEdges_ends (hparents : KnownParents facts) {kept : StringSet}
    (hkept : keepBridges (byKey facts) (setOf (leafIds facts)) = .ok kept) {p : PciFacts}
    (hp : p ∈ facts.pci) {e : Edge} (he : e ∈ pciEdges kept (setOf (leafIds facts)) p) :
    e.fromKey ∈ leafIds facts ++ bridgeKeys facts kept ∧
      (e.toKey ∈ leafIds facts ++ bridgeKeys facts kept ∨ e.toKey ∈ hostKeys facts) := by
  rcases mem_pciEdges.mp he with ⟨hmem, he⟩
  rcases h.mem_of_kept hkeys hkept hp hmem with ⟨hnode, hparent⟩
  rcases he with ⟨hne, he⟩ | ⟨_, n, hn, he⟩
  · rw [he]
    have hparentKept := hparent.resolve_left hne
    rcases List.mem_map.mp (hparents p hp hne) with ⟨q, hq, hqk⟩
    rw [← hqk] at hparentKept
    have hq := (h.mem_of_kept hkeys hkept hq hparentKept).1
    rw [hqk] at hq
    exact ⟨hq, Or.inl hnode⟩
  · rw [he]
    refine ⟨hnode, Or.inr (List.mem_append_right _ ?_)⟩
    exact List.mem_map_of_mem (h.numa p hp n hn)

omit hkeys in
theorem Consistent.nvlink_ends {e : Edge}
    (he : e ∈ pairEdges (tablesOf (gpuDocs facts)) ++
      switchEdges (tablesOf (gpuDocs facts))) :
    e.fromKey ∈ gpuIds facts ∧ (e.toKey ∈ gpuIds facts ∨
      e.toKey ∈ (switchNodes (tablesOf (gpuDocs facts))).map Node.key) := by
  have hwithin : TablesWithin (gpuIds facts) (tablesOf (gpuDocs facts)) :=
    rowsOf_within (fun _ hid => hid) h.remotes
  rcases List.mem_append.mp he with he | he
  · unfold pairEdges at he
    rcases List.mem_flatMap.mp he with ⟨pair, hpair, he⟩
    dsimp only at he
    split_ifs at he
    · rw [List.mem_singleton] at he
      rw [he]
      exact ⟨(hwithin.pairs pair hpair).1, Or.inl (hwithin.pairs pair hpair).2⟩
    · cases he
  · unfold switchEdges at he
    rcases List.mem_map.mp he with ⟨entry, hentry, rfl⟩
    refine ⟨hwithin.toSwitch entry.1 (List.mem_map_of_mem hentry), Or.inr ?_⟩
    unfold switchNodes
    rw [if_neg]
    · exact List.mem_singleton.mpr rfl
    · intro hempty
      rw [List.isEmpty_iff.mp hempty] at hentry
      cases hentry

end Closed

/-- The nodes of a model carry one key each and every edge joins two of them. -/
structure Closed (model : Model) : Prop where
  keys : (model.nodes.map Node.key).Nodup
  ends : forall e, e ∈ model.edges ->
    e.fromKey ∈ model.nodes.map Node.key ∧ e.toKey ∈ model.nodes.map Node.key

theorem Closed.strip_error {model : Model} (h : Closed model) {dump : Json -> String}
    {e : TopologyError} (herr : Identity.strip dump model = .error e) :
    e.code = "node_cap" := by
  by_cases hsize : model.nodes.length ≤ Identity.kMaxNodes
  · have haccepted : Identity.Accepted model := ⟨hsize, h.keys, h.ends⟩
    have hok : exists g, Identity.strip dump model = .ok g :=
      Identity.strip_ok_iff.mpr haccepted
    rcases hok with ⟨g, hg⟩
    rw [hg] at herr
    cases herr
  · unfold Identity.strip at herr
    rw [if_pos (Nat.lt_of_not_le hsize)] at herr
    injection herr with herr
    rw [← herr]

theorem Consistent.closed {facts : Facts} (h : Consistent facts)
    (hkeys : (facts.pci.map PciFacts.key).Nodup) (hdocs : Documents facts)
    (hparents : KnownParents facts) :
    exists model, build facts = .ok model ∧ Closed model := by
  have hdevices : forall id, id ∈ leafIds facts ->
      exists p, (byKey facts).find? id = some p ∧ p.bridge = false := by
    intro id hid
    rcases h.devices id hid with ⟨p, hp, hpk, hbridge⟩
    refine ⟨p, ?_, hbridge⟩
    rw [← hpk]
    exact byKey_of_mem hkeys hp
  rcases exists_trace hdocs hparents hdevices h.remotes with ⟨t, hgpu, hnic, htables⟩
  have hids : t.gpuNodes.map Node.key ++ t.nicNodes.map Node.key = leafIds facts := by
    rw [hgpu, hnic]
    rfl
  have hkept := t.kept_eq
  have hleaves : t.leaves = setOf (leafIds facts) := by
    unfold Trace.leaves
    rw [hids]
  have hnodes : t.model.nodes.map Node.key =
      hostKeys facts ++ (leafIds facts ++ bridgeKeys facts t.kept) ++
        (switchNodes t.tables).map Node.key := by
    unfold Trace.model
    simp only [List.map_append, hostNodes_keys, bridgeNodes_keys, List.append_assoc]
    rw [← hids]
    simp only [List.append_assoc]
    rfl
  rw [hids] at hkept
  refine ⟨t.model, build_eq_ok.mpr ⟨t, rfl⟩, ?_, ?_⟩
  · rw [hnodes]
    exact h.nodeKeys_nodup hkeys t.kept t.tables
  · intro e he
    rw [hnodes]
    simp only [List.mem_append]
    have he' : e ∈ facts.pci.flatMap (pciEdges t.kept (setOf (leafIds facts))) ++
        (pairEdges (tablesOf (gpuDocs facts)) ++ switchEdges (tablesOf (gpuDocs facts))) := by
      rw [← hleaves, ← htables, ← List.append_assoc]
      exact he
    rcases List.mem_append.mp he' with he | he
    · rcases List.mem_flatMap.mp he with ⟨p, hp, he⟩
      have hends := h.pciEdges_ends hkeys hparents hkept hp he
      simp only [List.mem_append] at hends
      tauto
    · have hends := h.nvlink_ends he
      rw [← htables] at hends
      have hleaf : forall k, k ∈ gpuIds facts -> k ∈ leafIds facts :=
        fun k hk => List.mem_append_left _ hk
      have hfrom := hleaf e.fromKey hends.1
      have hto := hends.2.imp_left (hleaf e.toKey)
      tauto

/--
Validated documents and known PCI parents never break the builder or the
identity, and on facts that fit together only the size of the model can keep it
from being stripped.
-/
theorem build_validated {env : Env} {facts : Facts} (hvalid : Validated env facts)
    (hkeys : (facts.pci.map PciFacts.key).Nodup) (hparents : KnownParents facts)
    (dump : Json -> String) (sha256Hex : String -> String) :
    Documents facts ∧
      (forall fault, identify dump sha256Hex facts = .error fault ->
        exists e, fault = .topology e) ∧
      (Consistent facts -> exists model, build facts = .ok model ∧ Closed model ∧
        forall e, Identity.strip dump model = .error e -> e.code = "node_cap") := by
  refine ⟨hvalid.documents, identify_sane dump sha256Hex hvalid.documents hparents, ?_⟩
  intro hconsistent
  rcases hconsistent.closed hkeys hvalid.documents hparents with ⟨model, hmodel, hclosed⟩
  exact ⟨model, hmodel, hclosed, fun e he => hclosed.strip_error he⟩

/-!
## A machine with two linked GPUs and a NIC
-/

/-- An environment that knows the one pattern of the two schemas. -/
def busIdEnv : Env :=
  ⟨Compact.dump, fun pattern text => pattern == Schema.busIdPattern && Schema.isBusId text,
    Schema.castEqual⟩

def pairLink (remote : String) : Json :=
  .obj [("link", .int 0), ("remote_bus_id", .str remote), ("remote_type", .str "gpu"),
    ("state", .str "active"), ("version", .int 4)]

def pairGpu (id remote : String) (ordinal : Int) : Json :=
  .obj [("bus_id", .str id), ("cc_major", .int 9), ("cc_minor", .int 0),
    ("cuda_ordinal", .int ordinal), ("memory_bytes", .int 80), ("name", .str "H100"),
    ("nvlinks", .arr [pairLink remote])]

def pairNic : Json :=
  .obj [("bus_id", .str "0000:03:00.0"), ("driver", .str "mlx5_core"),
    ("link_layer", .str "infiniband"), ("max_pcie_gen", .int 5),
    ("max_pcie_width", .int 16), ("numa_node", .int 0), ("port_speed_mbps", .int 400000)]

def pairFacts : Facts :=
  { packages := 1
    numaNodes := [0]
    pci :=
      [⟨"0000:00:01.0", "", true, 4318, 1, 0, 0, [0]⟩,
       ⟨"0000:01:00.0", "0000:00:01.0", false, 4318, 9008, 5, 16, [0]⟩,
       ⟨"0000:02:00.0", "0000:00:01.0", false, 4318, 9008, 5, 16, [0]⟩,
       ⟨"0000:03:00.0", "0000:00:01.0", false, 5555, 4129, 5, 16, [0]⟩]
    nvml := .obj
      [("gpus", .arr [pairGpu "0000:01:00.0" "0000:02:00.0" 0,
        pairGpu "0000:02:00.0" "0000:01:00.0" 1]),
       ("p2p", .arr []), ("schema", .int 1)]
    nics := .obj
      [("nics", .arr [pairNic]), ("rdma", .arr []), ("rdma_probe", .str "ok"),
       ("schema", .int 1)] }

theorem pairFacts_validated : Validated busIdEnv pairFacts := by
  constructor
  · right
    decide
  · decide

theorem pairFacts_keys : (pairFacts.pci.map PciFacts.key).Nodup := by decide

theorem pairFacts_parents : KnownParents pairFacts := by
  intro p hp
  simp only [pairFacts, List.mem_cons, List.not_mem_nil, or_false] at hp
  rcases hp with rfl | rfl | rfl | rfl
  all_goals decide

theorem pairFacts_leafIds :
    leafIds pairFacts = ["0000:01:00.0", "0000:02:00.0", "0000:03:00.0"] := by
  decide

theorem pairGpu_remotes {id remote : String} {ordinal : Int} {ls : List Json}
    (hls : linksOf (pairGpu id remote ordinal) = some ls) {l : Json} (hl : l ∈ ls)
    {far : String} (hfar : reportOf l = .toGpu far) : far = remote := by
  have hlinks : linksOf (pairGpu id remote ordinal) = some [pairLink remote] := rfl
  rw [hlinks, Option.some_inj] at hls
  rw [← hls, List.mem_singleton] at hl
  have hreport : reportOf (pairLink remote) = .toGpu remote := rfl
  rw [hl, hreport] at hfar
  injection hfar with hfar
  exact hfar.symm

theorem pairFacts_consistent : Consistent pairFacts := by
  have hall : forall p, p ∈ pairFacts.pci ->
      p.bridge = true ∨ p.key ∈ leafIds pairFacts := by
    rw [pairFacts_leafIds]
    decide
  constructor
  · rw [pairFacts_leafIds]
    decide
  · rw [pairFacts_leafIds]
    decide
  · intro leaf k _ _ p hp hpk
    rw [← hpk]
    exact hall p hp
  · decide
  · decide
  · intro g hg ls hls l hl far hfar
    have hgpus : gpuDocs pairFacts = [pairGpu "0000:01:00.0" "0000:02:00.0" 0,
      pairGpu "0000:02:00.0" "0000:01:00.0" 1] := rfl
    rw [hgpus, List.mem_cons, List.mem_singleton] at hg
    rcases hg with rfl | rfl
    · rw [pairGpu_remotes hls hl hfar]
      decide
    · rw [pairGpu_remotes hls hl hfar]
      decide
  · decide
  · decide
  · decide

theorem build_pairFacts :
    (forall fault, identify Compact.dump (fun s => s) pairFacts = .error fault ->
      exists e, fault = .topology e) ∧
    exists model, build pairFacts = .ok model ∧ Closed model := by
  have h := build_validated pairFacts_validated pairFacts_keys pairFacts_parents
    Compact.dump (fun s => s)
  rcases h.2.2 pairFacts_consistent with ⟨model, hmodel, hclosed, _⟩
  exact ⟨h.2.1, model, hmodel, hclosed⟩

end Builder
end Topology
end Ostia

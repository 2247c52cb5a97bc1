import Ostia.Topology.BuilderContract

/-!
# The kept part of the PCI tree

A model holds the bridges above its GPUs and NICs and no other ones, the links of these
devices and bridges to their parents, and the NUMA nodes of the devices.  The walk up from a
device stops at the first key that is kept already, which loses nothing: such a key is a
device, whose own walk comes or has been, or its parents have been kept before.
-/

namespace Ostia
namespace Topology

open Foundation

namespace Builder

/-!
## Ancestors
-/

/-- The second key is the parent of an entry with the first one. -/
def ChildOf (facts : Facts) (k k' : String) : Prop :=
  exists p, p ∈ facts.pci ∧ p.key = k ∧ p.parentKey = k' ∧ k' ≠ ""

/-- A strict ancestor of a GPU or a NIC. -/
def Above (facts : Facts) (k : String) : Prop :=
  exists leaf, leaf ∈ leafIds facts ∧ Relation.TransGen (ChildOf facts) leaf k

/-- The keys of the tree that the model needs. -/
def Needed (facts : Facts) (k : String) : Prop := k ∈ leafIds facts ∨ Above facts k

theorem parentOf_iff {facts : Facts} (hkeys : (facts.pci.map PciFacts.key).Nodup)
    {k k' : String} : ParentOf (byKey facts) k k' <-> ChildOf facts k k' := by
  constructor
  · intro h
    rcases h with ⟨p, hp, hparent, hne⟩
    rcases (byKey_find? facts k).1 p hp with ⟨hmem, hkey⟩
    exact ⟨p, hmem, hkey, hparent, hne⟩
  · intro h
    rcases h with ⟨p, hmem, rfl, hparent, hne⟩
    exact ⟨p, byKey_of_mem hkeys hmem, hparent, hne⟩

theorem Needed.parent {facts : Facts} {k k' : String} (h : Needed facts k)
    (hparent : ChildOf facts k k') : Above facts k' := by
  rcases h with hleaf | ⟨leaf, hleaf, habove⟩
  · exact ⟨k, hleaf, Relation.TransGen.single hparent⟩
  · exact ⟨leaf, hleaf, habove.tail hparent⟩

/-- The kept keys are the devices and all their ancestors. -/
theorem kept_iff {facts : Facts} (hkeys : (facts.pci.map PciFacts.key).Nodup)
    {kept : StringSet} (h : keepBridges (byKey facts) (setOf (leafIds facts)) = .ok kept)
    {k : String} : kept.contains k = true <-> Needed facts k := by
  have hspec := keepBridges_spec (P := Needed facts)
    (fun _ _ hk hparent => Or.inr (hk.parent ((parentOf_iff hkeys).mp hparent)))
    (fun _ hl => Or.inl (setOf_contains.mp hl)) h
  constructor
  · intro hk
    exact (hspec.2 k hk).1
  · intro hk
    rcases hk with hleaf | ⟨leaf, hleaf, habove⟩
    · exact hspec.1 k (setOf_contains.mpr hleaf)
    · -- Each ancestor is kept because the key below it is.
      have hstep : forall x y, kept.contains x = true -> ChildOf facts x y ->
          kept.contains y = true := by
        intro x y hx hchild
        rcases (parentOf_iff hkeys).mpr hchild with ⟨p, hp, hparent, hne⟩
        rcases (hspec.2 x hx).2 p hp with hempty | hkept
        · exact absurd (hparent.symm.trans hempty) hne
        · rw [← hparent]
          exact hkept
      induction habove with
      | single hchild => exact hstep _ _ (hspec.1 leaf (setOf_contains.mpr hleaf)) hchild
      | tail _ hchild ih => exact hstep _ _ ih hchild

/-!
## The parts of a model
-/

theorem flatMap_singleton_if {A B : Type*} (xs : List A) (c : A -> Prop) [DecidablePred c]
    (f : A -> B) :
    (xs.flatMap fun x => if c x then [f x] else []) = (xs.filter fun x => c x).map f := by
  induction xs with
  | nil => rfl
  | cons x xs ih =>
      rw [List.flatMap_cons, ih, List.filter_cons]
      by_cases h : c x
      · simp [h]
      · simp [h]

theorem gpuNodes_kind {pci : OrdMap String PciFacts} {gpus : List Json} {nodes : List Node}
    (h : gpus.mapM (gpuNode pci) = .ok nodes) :
    forall n, n ∈ nodes -> n.kind = NodeKind.gpu := by
  intro n hn
  rcases Fallible.forall₂_mem_right (Fallible.mapM_eq_ok.mp h) hn with ⟨g, _, hg⟩
  unfold gpuNode at hg
  simp only [Fallible.bind_eq_ok] at hg
  rcases hg with ⟨id, _, p, _, name, _, major, _, minor, _, memory, _, ordinal, _, hnode⟩
  injection hnode with hnode
  rw [← hnode]

theorem nicNodes_kind {pci : OrdMap String PciFacts} {nics : Json} {rdma : StringSet}
    {entries : List Json} {nodes : List Node}
    (h : entries.mapM (nicNode pci nics rdma) = .ok nodes) :
    forall n, n ∈ nodes -> n.kind = NodeKind.nic := by
  intro n hn
  rcases Fallible.forall₂_mem_right (Fallible.mapM_eq_ok.mp h) hn with ⟨g, _, hg⟩
  unfold nicNode at hg
  simp only [Fallible.bind_eq_ok] at hg
  rcases hg with ⟨id, _, p, _, driver, _, layer, _, numa, _, speed, _, value, _, probe, _, hnode⟩
  injection hnode with hnode
  rw [← hnode]

theorem gpuNode_device {pci : OrdMap String PciFacts} {g : Json} {node : Node}
    (h : gpuNode pci g = .ok node) : exists p, findDevice pci node.key "nvml.json" = .ok p := by
  unfold gpuNode at h
  simp only [Fallible.bind_eq_ok] at h
  rcases h with ⟨id, _, p, hp, name, _, major, _, minor, _, memory, _, ordinal, _, hnode⟩
  injection hnode with hnode
  rw [← hnode]
  exact ⟨p, hp⟩

theorem nicNode_device {pci : OrdMap String PciFacts} {nics : Json} {rdma : StringSet}
    {n : Json} {node : Node} (h : nicNode pci nics rdma n = .ok node) :
    exists p, findDevice pci node.key "nics.json" = .ok p := by
  unfold nicNode at h
  simp only [Fallible.bind_eq_ok] at h
  rcases h with ⟨id, _, p, hp, driver, _, layer, _, numa, _, speed, _, value, _, probe, _, hnode⟩
  injection hnode with hnode
  rw [← hnode]
  exact ⟨p, hp⟩

/-- The nodes of some kinds. -/
def nodesOf (kinds : List NodeKind) (nodes : List Node) : List Node :=
  nodes.filter fun n => n.kind ∈ kinds

def edgesOf (kind : EdgeKind) (edges : List Edge) : List Edge :=
  edges.filter fun e => e.kind = kind

theorem nodesOf_append (kinds : List NodeKind) (xs ys : List Node) :
    nodesOf kinds (xs ++ ys) = nodesOf kinds xs ++ nodesOf kinds ys :=
  List.filter_append xs ys

theorem edgesOf_append (kind : EdgeKind) (xs ys : List Edge) :
    edgesOf kind (xs ++ ys) = edgesOf kind xs ++ edgesOf kind ys :=
  List.filter_append xs ys

theorem nodesOf_none {kinds : List NodeKind} {nodes : List Node}
    (h : forall n, n ∈ nodes -> n.kind ∉ kinds) : nodesOf kinds nodes = [] := by
  apply List.filter_eq_nil_iff.mpr
  intro n hn
  simpa using h n hn

theorem nodesOf_all {kinds : List NodeKind} {nodes : List Node}
    (h : forall n, n ∈ nodes -> n.kind ∈ kinds) : nodesOf kinds nodes = nodes := by
  apply List.filter_eq_self.mpr
  intro n hn
  simpa using h n hn

theorem edgesOf_none {kind : EdgeKind} {edges : List Edge}
    (h : forall e, e ∈ edges -> e.kind ≠ kind) : edgesOf kind edges = [] := by
  apply List.filter_eq_nil_iff.mpr
  intro e he
  simpa using h e he

theorem edgesOf_all {kind : EdgeKind} {edges : List Edge}
    (h : forall e, e ∈ edges -> e.kind = kind) : edgesOf kind edges = edges := by
  apply List.filter_eq_self.mpr
  intro e he
  simpa using h e he

theorem hostNodes_kind {facts : Facts} {n : Node} (h : n ∈ hostNodes facts) :
    n.kind = NodeKind.package ∨ n.kind = NodeKind.numa := by
  rcases List.mem_append.mp h with h | h
  · rcases List.mem_map.mp h with ⟨i, _, rfl⟩
    exact Or.inl rfl
  · rcases List.mem_map.mp h with ⟨i, _, rfl⟩
    exact Or.inr rfl

theorem bridgeNodes_kind {pci : List PciFacts} {kept : StringSet} {n : Node}
    (h : n ∈ pci.flatMap (bridgeNodes kept)) : n.kind = NodeKind.pcieBridge := by
  rcases List.mem_flatMap.mp h with ⟨p, _, h⟩
  unfold bridgeNodes at h
  split_ifs at h
  · rw [List.mem_singleton.mp h]
  · cases h

theorem switchNodes_kind {tables : LinkTables} {n : Node} (h : n ∈ switchNodes tables) :
    n.kind = NodeKind.switchGroup := by
  unfold switchNodes at h
  split_ifs at h
  · cases h
  · rw [List.mem_singleton.mp h]

theorem pairEdges_kind {tables : LinkTables} {e : Edge} (h : e ∈ pairEdges tables) :
    e.kind = EdgeKind.nvlink := by
  rcases List.mem_flatMap.mp h with ⟨pair, _, h⟩
  dsimp only at h
  split_ifs at h
  · rw [List.mem_singleton.mp h]
    rfl
  · cases h

theorem switchEdges_kind {tables : LinkTables} {e : Edge} (h : e ∈ switchEdges tables) :
    e.kind = EdgeKind.nvlink := by
  rcases List.mem_map.mp h with ⟨entry, _, rfl⟩
  rfl

theorem pciEdges_kind {pci : List PciFacts} {kept leaves : StringSet} {e : Edge}
    (h : e ∈ pci.flatMap (pciEdges kept leaves)) :
    e.kind = EdgeKind.pcie ∨ e.kind = EdgeKind.numaLocal := by
  rcases List.mem_flatMap.mp h with ⟨p, _, h⟩
  rcases (mem_pciEdges.mp h).2 with ⟨_, rfl⟩ | ⟨_, n, _, rfl⟩
  · exact Or.inl rfl
  · exact Or.inr rfl

section Parts

variable {facts : Facts} (t : Trace facts)

/-- The nodes of a kind come from one part of the builder. -/
theorem Trace.nodesOf_eq (kinds : List NodeKind) (hpackage : NodeKind.package ∉ kinds)
    (hnuma : NodeKind.numa ∉ kinds) :
    nodesOf kinds t.model.nodes =
      (if NodeKind.gpu ∈ kinds then t.gpuNodes else []) ++
        (if NodeKind.nic ∈ kinds then t.nicNodes else []) ++
        (if NodeKind.pcieBridge ∈ kinds then facts.pci.flatMap (bridgeNodes t.kept) else []) ++
        (if NodeKind.switchGroup ∈ kinds then switchNodes t.tables else []) := by
  have hhost : nodesOf kinds (hostNodes facts) = [] := by
    apply nodesOf_none
    intro n hn
    rcases hostNodes_kind hn with h | h
    · rw [h]
      exact hpackage
    · rw [h]
      exact hnuma
  have hpart : forall (kind : NodeKind) (nodes : List Node),
      (forall n, n ∈ nodes -> n.kind = kind) ->
        nodesOf kinds nodes = if kind ∈ kinds then nodes else [] := by
    intro kind nodes h
    split_ifs with hkind
    · exact nodesOf_all fun n hn => (h n hn).symm ▸ hkind
    · exact nodesOf_none fun n hn => (h n hn).symm ▸ hkind
  show nodesOf kinds (hostNodes facts ++ t.gpuNodes ++ t.nicNodes ++
    facts.pci.flatMap (bridgeNodes t.kept) ++ switchNodes t.tables) = _
  rw [nodesOf_append, nodesOf_append, nodesOf_append, nodesOf_append, hhost,
    hpart .gpu _ (gpuNodes_kind t.gpuNodes_eq), hpart .nic _ (nicNodes_kind t.nicNodes_eq),
    hpart .pcieBridge _ fun _ hn => bridgeNodes_kind hn,
    hpart .switchGroup _ fun _ hn => switchNodes_kind hn, List.nil_append]

theorem Trace.edgesOf_pci {kind : EdgeKind} (hkind : kind ≠ EdgeKind.nvlink) :
    edgesOf kind t.model.edges =
      facts.pci.flatMap fun p => edgesOf kind (pciEdges t.kept t.leaves p) := by
  show edgesOf kind (facts.pci.flatMap (pciEdges t.kept t.leaves) ++ pairEdges t.tables ++
    switchEdges t.tables) = _
  have hpairs : edgesOf kind (pairEdges t.tables) = [] :=
    edgesOf_none fun e he => (pairEdges_kind he).symm ▸ hkind.symm
  have hswitches : edgesOf kind (switchEdges t.tables) = [] :=
    edgesOf_none fun e he => (switchEdges_kind he).symm ▸ hkind.symm
  rw [edgesOf_append, edgesOf_append, hpairs, hswitches, List.append_nil, List.append_nil]
  exact List.filter_flatMap

theorem Trace.edgesOf_nvlink :
    edgesOf .nvlink t.model.edges = pairEdges t.tables ++ switchEdges t.tables := by
  show edgesOf .nvlink (facts.pci.flatMap (pciEdges t.kept t.leaves) ++ pairEdges t.tables ++
    switchEdges t.tables) = _
  have hpci : edgesOf .nvlink (facts.pci.flatMap (pciEdges t.kept t.leaves)) = [] := by
    apply edgesOf_none
    intro e he
    rcases pciEdges_kind he with h | h
    · rw [h]
      decide
    · rw [h]
      decide
  rw [edgesOf_append, edgesOf_append, hpci, edgesOf_all fun _ he => pairEdges_kind he,
    edgesOf_all fun _ he => switchEdges_kind he, List.nil_append]

theorem Trace.leafIds_eq :
    leafIds facts = t.gpuNodes.map Node.key ++ t.nicNodes.map Node.key := by
  unfold leafIds
  rw [t.gpuIds_eq, t.nicIds_eq]

end Parts

theorem edgesOf_pcie (kept leaves : StringSet) (p : PciFacts) :
    edgesOf .pcie (pciEdges kept leaves p) =
      if kept.contains p.key = true ∧ p.parentKey ≠ "" then
        [⟨EdgeKind.pcie, p.parentKey, p.key, pcieAttrs p⟩]
      else [] := by
  have hparent : edgesOf .pcie (if p.parentKey ≠ "" then
      [⟨EdgeKind.pcie, p.parentKey, p.key, pcieAttrs p⟩] else []) =
        if p.parentKey ≠ "" then [⟨EdgeKind.pcie, p.parentKey, p.key, pcieAttrs p⟩] else [] := by
    apply edgesOf_all
    intro e he
    split_ifs at he
    · rw [List.mem_singleton.mp he]
    · cases he
  have hnuma : edgesOf .pcie (if leaves.contains p.key then
      p.numa.map fun n => ⟨EdgeKind.numaLocal, p.key, numaKey n, OrdMap.empty⟩ else []) = [] := by
    apply edgesOf_none
    intro e he
    split_ifs at he
    · rcases List.mem_map.mp he with ⟨n, _, rfl⟩
      simp
    · cases he
  unfold pciEdges
  by_cases hkept : kept.contains p.key = true
  · rw [if_pos hkept, edgesOf_append, hparent, hnuma, List.append_nil]
    simp only [hkept, true_and]
  · rw [if_neg hkept, if_neg fun h => hkept h.1]
    rfl

theorem edgesOf_numaLocal (kept leaves : StringSet) (p : PciFacts) :
    edgesOf .numaLocal (pciEdges kept leaves p) =
      if kept.contains p.key = true ∧ leaves.contains p.key = true then
        p.numa.map fun n => ⟨EdgeKind.numaLocal, p.key, numaKey n, OrdMap.empty⟩
      else [] := by
  have hparent : edgesOf .numaLocal (if p.parentKey ≠ "" then
      [⟨EdgeKind.pcie, p.parentKey, p.key, pcieAttrs p⟩] else []) = [] := by
    apply edgesOf_none
    intro e he
    split_ifs at he
    · rw [List.mem_singleton.mp he]
      simp
    · cases he
  have hnuma : edgesOf .numaLocal (if leaves.contains p.key then
      p.numa.map fun n => ⟨EdgeKind.numaLocal, p.key, numaKey n, OrdMap.empty⟩ else []) =
        if leaves.contains p.key then
          p.numa.map fun n => ⟨EdgeKind.numaLocal, p.key, numaKey n, OrdMap.empty⟩
        else [] := by
    apply edgesOf_all
    intro e he
    split_ifs at he
    · rcases List.mem_map.mp he with ⟨n, _, rfl⟩
      rfl
    · cases he
  unfold pciEdges
  by_cases hkept : kept.contains p.key = true
  · rw [if_pos hkept, edgesOf_append, hparent, hnuma, List.nil_append]
    simp only [hkept, true_and]
  · rw [if_neg hkept, if_neg fun h => hkept h.1]
    rfl

/-- An attribute that is zero is left out. -/
theorem pcieAttrs_entries (p : PciFacts) :
    (pcieAttrs p).entries =
      (if p.maxGen ≠ 0 then [("gen", p.maxGen)] else []) ++
        (if p.maxWidth ≠ 0 then [("width", p.maxWidth)] else []) := by
  have hlt : ¬ "width" < "gen" := by decide
  have hne : "width" ≠ "gen" := by decide
  unfold pcieAttrs
  dsimp only
  by_cases hgen : p.maxGen ≠ 0
  · by_cases hwidth : p.maxWidth ≠ 0
    · simp [hgen, hwidth, OrdMap.insert, OrdMap.empty, OrdMap.insertEntry, hlt, hne]
    · simp [hgen, hwidth, OrdMap.insert, OrdMap.empty, OrdMap.insertEntry]
  · by_cases hwidth : p.maxWidth ≠ 0
    · simp [hgen, hwidth, OrdMap.insert, OrdMap.empty, OrdMap.insertEntry]
    · simp [hgen, hwidth, OrdMap.empty]

/-- A GPU or a NIC is no bridge. -/
theorem Trace.leaf_bridge {facts : Facts} (t : Trace facts)
    (hkeys : (facts.pci.map PciFacts.key).Nodup) {p : PciFacts} (hp : p ∈ facts.pci)
    (hleaf : p.key ∈ leafIds facts) : p.bridge = false := by
  have hdevice : exists file q, findDevice (byKey facts) p.key file = .ok q := by
    rw [t.leafIds_eq] at hleaf
    rcases List.mem_append.mp hleaf with hleaf | hleaf
    · rcases List.mem_map.mp hleaf with ⟨node, hnode, hkey⟩
      rcases Fallible.forall₂_mem_right (Fallible.mapM_eq_ok.mp t.gpuNodes_eq) hnode with
        ⟨g, _, hg⟩
      rw [← hkey]
      exact ⟨_, gpuNode_device hg⟩
    · rcases List.mem_map.mp hleaf with ⟨node, hnode, hkey⟩
      rcases Fallible.forall₂_mem_right (Fallible.mapM_eq_ok.mp t.nicNodes_eq) hnode with
        ⟨n, _, hn⟩
      rw [← hkey]
      exact ⟨_, nicNode_device hn⟩
  rcases hdevice with ⟨file, q, hq⟩
  rcases findDevice_eq_ok.mp hq with ⟨hfind, hbridge⟩
  rw [byKey_of_mem hkeys hp, Option.some_inj] at hfind
  rw [hfind]
  exact hbridge

/-!
## The tree of a model
-/

open Classical in
/--
A model has the GPUs and NICs of the documents, exactly the bridges above them, exactly the
links of these devices and their ancestors to a parent, and exactly the devices' NUMA nodes.
-/
theorem build_tree {facts : Facts} (hkeys : (facts.pci.map PciFacts.key).Nodup) {model : Model}
    (h : build facts = .ok model) :
    (nodesOf [.gpu, .nic] model.nodes).map Node.key = leafIds facts ∧
      nodesOf [.pcieBridge] model.nodes =
        (facts.pci.filter fun p => p.bridge = true ∧ Above facts p.key).map
          (fun p => ⟨.pcieBridge, p.key, OrdMap.empty⟩) ∧
      edgesOf .pcie model.edges =
        (facts.pci.filter fun p => Needed facts p.key ∧ p.parentKey ≠ "").map
          (fun p => ⟨.pcie, p.parentKey, p.key, pcieAttrs p⟩) ∧
      (forall p : PciFacts, (pcieAttrs p).entries =
        (if p.maxGen ≠ 0 then [("gen", p.maxGen)] else []) ++
          (if p.maxWidth ≠ 0 then [("width", p.maxWidth)] else [])) ∧
      edgesOf .numaLocal model.edges =
        (facts.pci.filter fun p => p.key ∈ leafIds facts).flatMap
          (fun p => p.numa.map fun n => ⟨.numaLocal, p.key, numaKey n, OrdMap.empty⟩) := by
  rcases build_eq_ok.mp h with ⟨t, rfl⟩
  have hkeptEq := t.kept_eq
  rw [← t.leafIds_eq] at hkeptEq
  have hkept : forall k, t.kept.contains k = true <-> Needed facts k :=
    fun k => kept_iff hkeys hkeptEq
  have hleaves : forall k, t.leaves.contains k = true <-> k ∈ leafIds facts := by
    intro k
    unfold Trace.leaves
    rw [setOf_contains, ← t.leafIds_eq]
  refine ⟨?_, ?_, ?_, pcieAttrs_entries, ?_⟩
  · rw [t.nodesOf_eq _ (by decide) (by decide), t.leafIds_eq]
    simp
  · have hbridge : forall p, p ∈ facts.pci ->
        (t.kept.contains p.key = true ∧ p.bridge = true <->
          p.bridge = true ∧ Above facts p.key) := by
      intro p hp
      rw [hkept, and_comm]
      refine and_congr_right fun htrue => ?_
      unfold Needed
      refine or_iff_right fun hleaf => ?_
      rw [t.leaf_bridge hkeys hp hleaf] at htrue
      cases htrue
    have hpart : nodesOf [.pcieBridge] t.model.nodes =
        facts.pci.flatMap (bridgeNodes t.kept) := by
      rw [t.nodesOf_eq _ (by decide) (by decide)]
      simp
    have hfilter : facts.pci.flatMap (bridgeNodes t.kept) =
        (facts.pci.filter fun p => t.kept.contains p.key = true ∧ p.bridge = true).map
          (fun p => ⟨.pcieBridge, p.key, OrdMap.empty⟩) :=
      flatMap_singleton_if _ _ _
    rw [hpart, hfilter]
    congr 1
    apply List.filter_congr
    intro p hp
    exact decide_eq_decide.mpr (hbridge p hp)
  · rw [t.edgesOf_pci (by decide)]
    simp only [edgesOf_pcie, hkept]
    exact flatMap_singleton_if _ _ _
  · have hleaf : forall k, (t.kept.contains k = true ∧ t.leaves.contains k = true <->
        k ∈ leafIds facts) := by
      intro k
      rw [hkept, hleaves]
      exact ⟨fun hk => hk.2, fun hk => ⟨Or.inl hk, hk⟩⟩
    rw [t.edgesOf_pci (by decide)]
    simp only [edgesOf_numaLocal, hleaf]
    induction facts.pci with
    | nil => rfl
    | cons p rest ih =>
        rw [List.flatMap_cons, List.filter_cons, ih]
        by_cases hp : p.key ∈ leafIds facts
        · simp [hp]
        · simp [hp]

theorem build_tree_pairFacts : exists model, build pairFacts = .ok model ∧
    (nodesOf [.gpu, .nic] model.nodes).map Node.key =
      ["0000:01:00.0", "0000:02:00.0", "0000:03:00.0"] := by
  rcases pairFacts_consistent.closed pairFacts_keys pairFacts_validated.documents
    pairFacts_parents with ⟨model, hmodel, _⟩
  refine ⟨model, hmodel, ?_⟩
  rw [← pairFacts_leafIds]
  exact (build_tree pairFacts_keys hmodel).1

end Builder
end Topology
end Ostia

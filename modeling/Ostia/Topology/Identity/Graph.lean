import Ostia.Foundation.DenseRank
import Ostia.Foundation.Fallible
import Ostia.Foundation.Multigraph
import Ostia.Topology.Model

/-!
# The stripped graph

The identity of a topology is computed on a graph without keys: a vertex is an
index whose only meaning is its label and its arcs.  Stripping keeps the kind
and the identity attributes of nodes and edges as JSON labels, replaces edge
labels by their ranks, and refuses a model that is too large, repeats a key or
has an edge to an unknown node.
-/

namespace Ostia
namespace Topology

open Foundation
open Foundation.Multigraph (Dir Link)

namespace Identity

def kMaxNodes : Nat := 256
def kMaxLeaves : Nat := 1000000

/-!
## Identity attributes and labels
-/

def identityAttrs : NodeKind -> List String
  | NodeKind.gpu => ["model", "cc_major", "cc_minor"]
  | NodeKind.nic => ["pci_vendor", "pci_device"]
  | _ => []

def edgeIdentityAttrs : EdgeKind -> List String
  | EdgeKind.pcie => ["gen", "width"]
  | EdgeKind.nvlink => ["links"]
  | _ => []

/-- The kind and those of the named attributes that are present. -/
def labelFields (kind : String) (names : List String)
    (find : String -> Option Json) : OrdMap String Json :=
  names.foldl
    (fun j name =>
      match find name with
      | some v => j.insert name v
      | none => j)
    (OrdMap.empty.insert "kind" (Json.str kind))

def nodeLabel (node : Node) : Json :=
  Json.ofMap (labelFields node.kind.toString (identityAttrs node.kind)
    (fun name => (node.attrs.find? name).map Value.toJson))

def edgeLabel (edge : Edge) : Json :=
  Json.ofMap (labelFields edge.kind.toString (edgeIdentityAttrs edge.kind)
    (fun name => (edge.attrs.find? name).map Json.int))

/-- An NVLink is undirected; the other kinds point parent to child and device to NUMA node. -/
def directed (kind : EdgeKind) : Bool := kind != EdgeKind.nvlink

/-!
## Graphs
-/

structure Arc (n : Nat) where
  label : Nat
  dir : Dir
  toIdx : Fin n
deriving DecidableEq

structure StoredEdge (n : Nat) where
  fromIdx : Fin n
  toIdx : Fin n
  label : Nat
  directed : Bool

structure Graph (n : Nat) where
  vkey : Fin n -> String
  vlabel : Fin n -> Json
  /-- The edge label of each rank. -/
  elabel : Nat -> Json
  adj : Fin n -> List (Arc n)
  edges : List (StoredEdge n)

/-- The rank of a string among the sorted distinct values. -/
def rankValues (values : List String) (v : String) : Nat :=
  DenseRank.rank values v

/-- The arcs that storing an edge appends to the adjacency of a vertex. -/
def StoredEdge.arcsAt {n : Nat} (v : Fin n) (e : StoredEdge n) : List (Arc n) :=
  (if e.fromIdx = v then
    [⟨e.label, if e.directed then Dir.out else Dir.undirected, e.toIdx⟩] else []) ++
  (if e.toIdx = v then
    [⟨e.label, if e.directed then Dir.into else Dir.undirected, e.fromIdx⟩] else [])

/-- The first key of a list that occurs earlier in it. -/
def firstRepeated (seen : List String) : List String -> Option String
  | [] => none
  | key :: rest =>
      if key ∈ seen then some key else firstRepeated (key :: seen) rest

def nodeIndex (model : Model) (key : String) : Option (Fin model.nodes.length) :=
  model.nodes.findFinIdx? (fun n => n.key == key)

def resolveEdge (model : Model) (rank : Json -> Nat) (e : Edge) :
    Except TopologyError (StoredEdge model.nodes.length) :=
  match nodeIndex model e.fromKey, nodeIndex model e.toKey with
  | some a, some b => .ok ⟨a, b, rank (edgeLabel e), directed e.kind⟩
  | _, _ =>
      .error ⟨"dangling_reference", "",
        "edge " ++ e.fromKey ++ " -> " ++ e.toKey ++ " names an unknown node"⟩

/-- The rank of an edge label among the labels of the model's edges. -/
def edgeRank (dump : Json -> String) (model : Model) (label : Json) : Nat :=
  rankValues (model.edges.map (fun e => dump (edgeLabel e))) (dump label)

/-- The label stored last at a rank, null where none was. -/
def labelAt (dump : Json -> String) (model : Model) (r : Nat) : Json :=
  (((model.edges.map edgeLabel).filter
    (fun l => edgeRank dump model l = r)).getLast?).getD Json.null

def strip (dump : Json -> String) (model : Model) :
    Except TopologyError (Graph model.nodes.length) :=
  if model.nodes.length > kMaxNodes then
    .error ⟨"node_cap", "",
      toString model.nodes.length ++ " nodes exceed the cap of " ++
        toString kMaxNodes⟩
  else
    match firstRepeated [] (model.nodes.map Node.key) with
    | some key =>
        .error ⟨"duplicate_key", "", "node key '" ++ key ++ "' appears twice"⟩
    | none =>
        match model.edges.mapM (resolveEdge model (edgeRank dump model)) with
        | .error e => .error e
        | .ok edges =>
            .ok
              { vkey := fun v => dump (nodeLabel (model.nodes.get v))
                vlabel := fun v => nodeLabel (model.nodes.get v)
                elabel := labelAt dump model
                adj := fun v => edges.flatMap (StoredEdge.arcsAt v)
                edges := edges }

/-!
## Labels determine what they record
-/

theorem labelFields_find? (kind : String) {names : List String}
    (find : String -> Option Json) (hkind : "kind" ∉ names) (key : String) :
    (labelFields kind names find).find? key =
      if key = "kind" then some (Json.str kind)
      else if key ∈ names then find key else none := by
  unfold labelFields
  -- The map after any sequence of names, over any map that starts the fold.
  have hfold : forall (ns : List String) (m : OrdMap String Json),
      (ns.foldl (fun j name =>
        match find name with
        | some v => j.insert name v
        | none => j) m).find? key =
        if key ∈ ns then (find key).or (m.find? key) else m.find? key := by
    intro ns
    induction ns with
    | nil =>
        intro m
        simp
    | cons name rest ih =>
        intro m
        rw [List.foldl_cons, ih]
        by_cases hname : key = name
        · subst hname
          cases hf : find key with
          | none => simp
          | some v => simp
        · cases hf : find name with
          | none => simp [hname]
          | some v => simp [hname, OrdMap.find?_insert_of_ne]
  rw [hfold, OrdMap.find?_insert, OrdMap.find?_empty]
  by_cases hk : key = "kind"
  · simp [hk, hkind]
  · simp [hk]

theorem labelFields_kind {kind kind' : String} {names names' : List String}
    {find find' : String -> Option Json}
    (hnames : "kind" ∉ names) (hnames' : "kind" ∉ names')
    (h : labelFields kind names find = labelFields kind' names' find') :
    kind = kind' := by
  have hfind := congrArg (fun m => OrdMap.find? m "kind") h
  simpa [labelFields_find? _ _ hnames, labelFields_find? _ _ hnames'] using hfind

/-- Labels over the same names are equal when the kind and the named values are. -/
theorem labelFields_eq_iff {kind : String} {names : List String}
    {find find' : String -> Option Json} (hnames : "kind" ∉ names) :
    labelFields kind names find = labelFields kind names find' <->
      forall name, name ∈ names -> find name = find' name := by
  constructor
  · intro h name hname
    have hne : name ≠ "kind" := by
      rintro rfl
      exact hnames hname
    have hfind := congrArg (fun m => OrdMap.find? m name) h
    simpa [labelFields_find? _ _ hnames, hne, hname] using hfind
  · intro h
    apply OrdMap.ext_find?
    intro key
    rw [labelFields_find? _ _ hnames, labelFields_find? _ _ hnames]
    split_ifs with hkind hkey
    · rfl
    · exact h key hkey
    · rfl

theorem kind_notMem_identityAttrs (kind : NodeKind) :
    "kind" ∉ identityAttrs kind := by
  cases kind <;> decide

theorem kind_notMem_edgeIdentityAttrs (kind : EdgeKind) :
    "kind" ∉ edgeIdentityAttrs kind := by
  cases kind <;> decide

/-- Two nodes agree on what counts for the identity. -/
def SameNodeIdentity (a b : Node) : Prop :=
  a.kind = b.kind ∧
    forall name, name ∈ identityAttrs a.kind ->
      a.attrs.find? name = b.attrs.find? name

/-- Two edges agree on their kind and identity attributes. -/
def SameEdgeIdentity (a b : Edge) : Prop :=
  a.kind = b.kind ∧
    forall name, name ∈ edgeIdentityAttrs a.kind ->
      a.attrs.find? name = b.attrs.find? name

theorem nodeLabel_eq_iff {a b : Node} :
    nodeLabel a = nodeLabel b <-> SameNodeIdentity a b := by
  unfold nodeLabel SameNodeIdentity
  rw [Json.ofMap_injective.eq_iff]
  constructor
  · intro h
    have hkind : a.kind = b.kind :=
      NodeKind.toString_injective
        (labelFields_kind (kind_notMem_identityAttrs _)
          (kind_notMem_identityAttrs _) h)
    refine ⟨hkind, ?_⟩
    intro name hname
    rw [← hkind, labelFields_eq_iff (kind_notMem_identityAttrs _)] at h
    exact Option.map_injective Value.toJson_injective (h name hname)
  · rintro ⟨hkind, hattrs⟩
    rw [← hkind, labelFields_eq_iff (kind_notMem_identityAttrs _)]
    intro name hname
    rw [hattrs name hname]

theorem edgeLabel_eq_iff {a b : Edge} :
    edgeLabel a = edgeLabel b <-> SameEdgeIdentity a b := by
  unfold edgeLabel SameEdgeIdentity
  rw [Json.ofMap_injective.eq_iff]
  constructor
  · intro h
    have hkind : a.kind = b.kind :=
      EdgeKind.toString_injective
        (labelFields_kind (kind_notMem_edgeIdentityAttrs _)
          (kind_notMem_edgeIdentityAttrs _) h)
    refine ⟨hkind, ?_⟩
    intro name hname
    rw [← hkind, labelFields_eq_iff (kind_notMem_edgeIdentityAttrs _)] at h
    have hint : Function.Injective Json.int := fun _ _ heq => Json.int.inj heq
    exact Option.map_injective hint (h name hname)
  · rintro ⟨hkind, hattrs⟩
    rw [← hkind, labelFields_eq_iff (kind_notMem_edgeIdentityAttrs _)]
    intro name hname
    rw [hattrs name hname]

/-!
## What stripping accepts
-/

/-- At most 256 nodes, unique keys, and no edge to an unknown node. -/
structure Accepted (model : Model) : Prop where
  size : model.nodes.length ≤ kMaxNodes
  keys : (model.nodes.map Node.key).Nodup
  ends : forall e, e ∈ model.edges ->
    e.fromKey ∈ model.nodes.map Node.key ∧ e.toKey ∈ model.nodes.map Node.key

theorem firstRepeated_eq_none {seen keys : List String} :
    firstRepeated seen keys = none <->
      keys.Nodup ∧ forall k, k ∈ keys -> k ∉ seen := by
  induction keys generalizing seen with
  | nil => simp [firstRepeated]
  | cons key rest ih =>
      rw [firstRepeated]
      by_cases hseen : key ∈ seen
      · simp [hseen]
      · rw [if_neg hseen, ih, List.nodup_cons]
        simp only [List.mem_cons, not_or]
        constructor
        · rintro ⟨hnodup, hrest⟩
          refine ⟨⟨fun h => (hrest key h).1 rfl, hnodup⟩, ?_⟩
          rintro k (rfl | hk)
          · exact hseen
          · exact (hrest k hk).2
        · rintro ⟨⟨hkey, hnodup⟩, hall⟩
          refine ⟨hnodup, fun k hk => ⟨?_, hall k (Or.inr hk)⟩⟩
          rintro rfl
          exact hkey hk

theorem nodeIndex_eq_none {model : Model} {key : String} :
    nodeIndex model key = none <-> key ∉ model.nodes.map Node.key := by
  unfold nodeIndex
  rw [List.findFinIdx?_eq_none_iff]
  simp [List.mem_map]

theorem key_of_nodeIndex {model : Model} {key : String}
    {i : Fin model.nodes.length} (h : nodeIndex model key = some i) :
    (model.nodes.get i).key = key := by
  unfold nodeIndex at h
  rw [List.findFinIdx?_eq_some_iff] at h
  simpa using h.1

theorem nodeIndex_key {model : Model} (hkeys : (model.nodes.map Node.key).Nodup)
    (i : Fin model.nodes.length) :
    nodeIndex model (model.nodes.get i).key = some i := by
  cases h : nodeIndex model (model.nodes.get i).key with
  | none =>
      rw [nodeIndex_eq_none] at h
      exact absurd (List.mem_map_of_mem (List.get_mem model.nodes i)) h
  | some j =>
      have hkey := key_of_nodeIndex h
      have hinj := List.inj_on_of_nodup_map hkeys (List.get_mem model.nodes j)
        (List.get_mem model.nodes i) hkey
      have hnodup : model.nodes.Nodup := List.Nodup.of_map _ hkeys
      rw [(hnodup.get_inj_iff).mp hinj]

theorem resolveEdge_ok_iff {model : Model} {rank : Json -> Nat} {e : Edge}
    {s : StoredEdge model.nodes.length} :
    resolveEdge model rank e = .ok s <->
      nodeIndex model e.fromKey = some s.fromIdx ∧
        nodeIndex model e.toKey = some s.toIdx ∧
        s.label = rank (edgeLabel e) ∧ s.directed = directed e.kind := by
  unfold resolveEdge
  cases hf : nodeIndex model e.fromKey with
  | none => simp
  | some a =>
      cases ht : nodeIndex model e.toKey with
      | none => simp
      | some b =>
          constructor
          · intro h
            injection h with h
            rw [← h]
            exact ⟨rfl, rfl, rfl, rfl⟩
          · rintro ⟨ha, hb, hl, hd⟩
            injection ha with ha
            injection hb with hb
            cases s
            simp_all

/-- Stripping returns a graph exactly for the accepted models. -/
theorem strip_ok_iff {dump : Json -> String} {model : Model} :
    (exists g, strip dump model = .ok g) <-> Accepted model := by
  constructor
  · rintro ⟨g, h⟩
    unfold strip at h
    split_ifs at h with hsize
    cases hrep : firstRepeated [] (model.nodes.map Node.key) with
    | some key =>
        rw [hrep] at h
        cases h
    | none =>
        rw [hrep] at h
        cases hedges : model.edges.mapM (resolveEdge model (edgeRank dump model)) with
        | error e =>
            rw [hedges] at h
            cases h
        | ok edges =>
            rw [Fallible.mapM_eq_ok] at hedges
            refine ⟨Nat.le_of_not_lt hsize, (firstRepeated_eq_none.mp hrep).1, ?_⟩
            intro e he
            rcases Fallible.forall₂_mem_left hedges he with ⟨s, _, hs⟩
            rw [resolveEdge_ok_iff] at hs
            constructor
            · by_contra hno
              rw [← nodeIndex_eq_none, hs.1] at hno
              cases hno
            · by_contra hno
              rw [← nodeIndex_eq_none, hs.2.1] at hno
              cases hno
  · intro h
    have hrep : firstRepeated [] (model.nodes.map Node.key) = none :=
      firstRepeated_eq_none.mpr ⟨h.keys, fun _ _ => List.not_mem_nil⟩
    have hresolve : forall e, e ∈ model.edges ->
        exists s, resolveEdge model (edgeRank dump model) e = .ok s := by
      intro e he
      cases hf : nodeIndex model e.fromKey with
      | none =>
          exact absurd (h.ends e he).1 (nodeIndex_eq_none.mp hf)
      | some a =>
          cases ht : nodeIndex model e.toKey with
          | none =>
              exact absurd (h.ends e he).2 (nodeIndex_eq_none.mp ht)
          | some b =>
              exact ⟨⟨a, b, _, _⟩, resolveEdge_ok_iff.mpr ⟨hf, ht, rfl, rfl⟩⟩
    rcases Fallible.exists_mapM_eq_ok hresolve with ⟨edges, hedges⟩
    unfold strip
    rw [if_neg (Nat.not_lt.mpr h.size), hrep, hedges]
    exact ⟨_, rfl⟩

end Identity
end Topology
end Ostia

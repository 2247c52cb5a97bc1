import Ostia.Tool.Diff
import Ostia.Topology.BuilderOrder

/-!
# Golden files

A golden file determines the model up to the order of its nodes and edges, so a fixture that
passes a check against the golden file of another one has the same topology.
-/

namespace Ostia
namespace Tool

open Foundation
open Capture (Bytes ascii utf8)
open Ostia.Topology (Edge EdgeKind Facts Json Model Node NodeKind Value)
open Ostia.Topology.Builder (Trace build)

/-!
## What a golden file says of a node and of an edge
-/

section Entries

variable {A B : Type*}

theorem find?_foldl_entries (f : A -> B) (base : OrdMap String B) (attrs : OrdMap String A)
    (k : String) :
    (attrs.entries.foldl (fun j e => j.insert e.1 (f e.2)) base).find? k =
      match attrs.find? k with
      | some v => some (f v)
      | none => base.find? k := by
  have hfold : forall (entries : List (String × A)), entries.Pairwise (fun a b => a.1 < b.1) ->
      forall base : OrdMap String B,
        (entries.foldl (fun j e => j.insert e.1 (f e.2)) base).find? k =
          match OrdMap.lookup k entries with
          | some v => some (f v)
          | none => base.find? k := by
    intro entries
    induction entries with
    | nil =>
        intro _ base
        rfl
    | cons e rest ih =>
        intro hsorted base
        rw [List.pairwise_cons] at hsorted
        rw [List.foldl_cons, ih hsorted.2, OrdMap.lookup]
        by_cases hk : k = e.1
        · have hnone : OrdMap.lookup k rest = none := by
            apply OrdMap.lookup_eq_none
            intro e' he' hkey
            exact absurd (hk ▸ hkey ▸ hsorted.1 e' he') (lt_irrefl _)
          rw [hnone, if_pos hk.symm, hk, OrdMap.find?_insert_self]
        · rw [if_neg (Ne.symm hk)]
          cases OrdMap.lookup k rest with
          | some v => rfl
          | none => exact OrdMap.find?_insert_of_ne _ _ hk
  exact hfold attrs.entries attrs.sorted base

/-- Attributes that leave the structural members alone are determined by the merged members. -/
theorem attrs_eq {f : A -> B} (hf : Function.Injective f) {base base' : OrdMap String B}
    {attrs attrs' : OrdMap String A} {names : List String}
    (hbase : forall k, k ∉ names -> base.find? k = none)
    (hbase' : forall k, k ∉ names -> base'.find? k = none)
    (hattrs : forall k, k ∈ names -> attrs.find? k = none)
    (hattrs' : forall k, k ∈ names -> attrs'.find? k = none)
    (h : attrs.entries.foldl (fun j e => j.insert e.1 (f e.2)) base =
      attrs'.entries.foldl (fun j e => j.insert e.1 (f e.2)) base') :
    attrs = attrs' ∧ forall k, k ∈ names -> base.find? k = base'.find? k := by
  have hmembers := fun k => congrArg (fun m : OrdMap String B => m.find? k) h
  simp only [find?_foldl_entries] at hmembers
  constructor
  · apply OrdMap.ext_find?
    intro k
    have hk := hmembers k
    by_cases hname : k ∈ names
    · rw [hattrs k hname, hattrs' k hname]
    · rw [hbase k hname, hbase' k hname] at hk
      cases hfind : attrs.find? k with
      | none =>
          rw [hfind] at hk
          cases hfind' : attrs'.find? k with
          | none => rfl
          | some v =>
              rw [hfind'] at hk
              cases hk
      | some v =>
          rw [hfind] at hk
          cases hfind' : attrs'.find? k with
          | none =>
              rw [hfind'] at hk
              cases hk
          | some v' =>
              rw [hfind'] at hk
              rw [hf (Option.some.inj hk)]
  · intro k hname
    have hk := hmembers k
    rw [hattrs k hname, hattrs' k hname] at hk
    exact hk

end Entries

/-- The attributes of a node are beside its key and kind. -/
def PlainNode (n : Node) : Prop := forall k, k ∈ ["key", "kind"] -> n.attrs.find? k = none

def PlainEdge (e : Edge) : Prop := forall k, k ∈ ["from", "kind", "to"] -> e.attrs.find? k = none

theorem nodeJson_injective {x y : Node} (hx : PlainNode x) (hy : PlainNode y)
    (h : Topology.nodeJson x = Topology.nodeJson y) : x = y := by
  have hstructural : forall n : Node, forall k, k ∉ ["key", "kind"] ->
      ((OrdMap.empty.insert "key" (Json.str n.key)).insert "kind"
        (Json.str n.kind.toString)).find? k = none := by
    intro n k hk
    simp only [List.mem_cons, List.not_mem_nil, or_false, not_or] at hk
    rw [OrdMap.find?_insert_of_ne _ _ hk.2, OrdMap.find?_insert_of_ne _ _ hk.1]
    rfl
  obtain ⟨hattrs, hbase⟩ := attrs_eq Value.toJson_injective (hstructural x) (hstructural y) hx hy
    (Json.ofMap_injective h)
  have hkey := hbase "key" (by decide)
  have hkind := hbase "kind" (by decide)
  simp only [OrdMap.find?_insert, reduceIte, String.reduceEq] at hkey hkind
  cases x with
  | mk kind key attrs =>
      cases y with
      | mk kind' key' attrs' =>
          have hkey' : key = key' := Json.str.inj (Option.some.inj hkey)
          have hkind' : kind = kind' :=
            NodeKind.toString_injective (Json.str.inj (Option.some.inj hkind))
          have hattrs' : attrs = attrs' := hattrs
          rw [hkey', hkind', hattrs']

theorem edgeJson_injective {x y : Edge} (hx : PlainEdge x) (hy : PlainEdge y)
    (h : Topology.edgeJson x = Topology.edgeJson y) : x = y := by
  have hstructural : forall e : Edge, forall k, k ∉ ["from", "kind", "to"] ->
      (((OrdMap.empty.insert "kind" (Json.str e.kind.toString)).insert "from"
        (Json.str e.fromKey)).insert "to" (Json.str e.toKey)).find? k = none := by
    intro e k hk
    simp only [List.mem_cons, List.not_mem_nil, or_false, not_or] at hk
    rw [OrdMap.find?_insert_of_ne _ _ hk.2.2, OrdMap.find?_insert_of_ne _ _ hk.1,
      OrdMap.find?_insert_of_ne _ _ hk.2.1]
    rfl
  have hint : Function.Injective Json.int := fun _ _ heq => Json.int.inj heq
  obtain ⟨hattrs, hbase⟩ := attrs_eq hint (hstructural x) (hstructural y) hx hy
    (Json.ofMap_injective h)
  have hfrom := hbase "from" (by decide)
  have hkind := hbase "kind" (by decide)
  have hto := hbase "to" (by decide)
  simp only [OrdMap.find?_insert, reduceIte, String.reduceEq] at hfrom hkind hto
  cases x with
  | mk kind fromKey toKey attrs =>
      cases y with
      | mk kind' fromKey' toKey' attrs' =>
          have hfrom' : fromKey = fromKey' := Json.str.inj (Option.some.inj hfrom)
          have hto' : toKey = toKey' := Json.str.inj (Option.some.inj hto)
          have hkind' : kind = kind' :=
            EdgeKind.toString_injective (Json.str.inj (Option.some.inj hkind))
          have hattrs' : attrs = attrs' := hattrs
          rw [hfrom', hto', hkind', hattrs']

/-!
## The models that are built
-/

/-- No attribute of a model hides a structural member. -/
structure PlainModel (model : Model) : Prop where
  nodes : forall n, n ∈ model.nodes -> PlainNode n
  edges : forall e, e ∈ model.edges -> PlainEdge e

theorem plain_insert {A : Type*} {m : OrdMap String A} {names : List String} {k : String} {v : A}
    (hk : k ∉ names) (h : forall x, x ∈ names -> m.find? x = none) :
    forall x, x ∈ names -> (m.insert k v).find? x = none := by
  intro x hx
  have hne : x ≠ k := by
    intro heq
    exact hk (heq ▸ hx)
  rw [OrdMap.find?_insert_of_ne _ _ hne]
  exact h x hx

theorem plain_empty {A : Type*} {names : List String} :
    forall x, x ∈ names -> (OrdMap.empty : OrdMap String A).find? x = none := fun _ _ => rfl

theorem plain_gpuNode {pci : OrdMap String Topology.PciFacts} {g : Json} {n : Node}
    (h : Topology.Builder.gpuNode pci g = .ok n) : PlainNode n := by
  unfold Topology.Builder.gpuNode at h
  simp only [Fallible.bind_eq_ok] at h
  obtain ⟨id, _, _, _, model, _, ccMajor, _, ccMinor, _, memoryBytes, _, cudaOrdinal, _, hn⟩ := h
  cases hn
  unfold PlainNode Topology.Builder.gpuAttrs
  exact plain_insert (by decide) (plain_insert (by decide) (plain_insert (by decide)
    (plain_insert (by decide) (plain_insert (by decide) plain_empty))))

theorem plain_nicNode {pci : OrdMap String Topology.PciFacts} {nics n : Json}
    {rdma : Topology.Builder.StringSet} {node : Node}
    (h : Topology.Builder.nicNode pci nics rdma n = .ok node) : PlainNode node := by
  unfold Topology.Builder.nicNode at h
  simp only [Fallible.bind_eq_ok] at h
  obtain ⟨id, _, dev, _, driver, _, linkLayer, _, numaNode, _, speedJson, _, speed, _, probe, _,
    hn⟩ := h
  cases hn
  unfold PlainNode Topology.Builder.nicAttrs
  exact plain_insert (by decide) (plain_insert (by decide) (plain_insert (by decide)
    (plain_insert (by decide) (plain_insert (by decide) (plain_insert (by decide)
      (plain_insert (by decide) (plain_insert (by decide) plain_empty)))))))

theorem plain_pcieAttrs (p : Topology.PciFacts) : forall k, k ∈ ["from", "kind", "to"] ->
    (Topology.Builder.pcieAttrs p).find? k = none := by
  unfold Topology.Builder.pcieAttrs
  dsimp only
  split_ifs
  · exact plain_insert (by decide) (plain_insert (by decide) plain_empty)
  · exact plain_insert (by decide) plain_empty
  · exact plain_insert (by decide) plain_empty
  · exact plain_empty

theorem plain_nvlinkEdge (a b : String) (links : Int) :
    PlainEdge (Topology.Builder.nvlinkEdge a b links) := plain_insert (by decide) plain_empty

theorem plain_pciEdges {kept leaves : Topology.Builder.StringSet} {p : Topology.PciFacts} {e : Edge}
    (h : e ∈ Topology.Builder.pciEdges kept leaves p) : PlainEdge e := by
  unfold Topology.Builder.pciEdges at h
  split at h
  · rw [List.mem_append] at h
    rcases h with h | h
    · split at h
      · rw [List.mem_singleton.mp h]
        exact plain_pcieAttrs p
      · cases h
    · split at h
      · obtain ⟨_, _, rfl⟩ := List.mem_map.mp h
        exact plain_empty
      · cases h
  · cases h

theorem plain_of_build {facts : Facts} {model : Model} (h : build facts = .ok model) :
    PlainModel model := by
  obtain ⟨t, rfl⟩ := Topology.Builder.build_eq_ok.mp h
  constructor
  · intro n hn
    unfold Trace.model Topology.Builder.hostNodes at hn
    simp only [List.mem_append] at hn
    rcases hn with (((hn | hn) | hn) | hn) | hn
    · rcases hn with hn | hn
      · obtain ⟨_, _, rfl⟩ := List.mem_map.mp hn
        exact plain_empty
      · obtain ⟨_, _, rfl⟩ := List.mem_map.mp hn
        exact plain_empty
    · obtain ⟨g, _, hg⟩ := Fallible.forall₂_mem_right (Fallible.mapM_eq_ok.mp t.gpuNodes_eq) hn
      exact plain_gpuNode hg
    · obtain ⟨j, _, hj⟩ := Fallible.forall₂_mem_right (Fallible.mapM_eq_ok.mp t.nicNodes_eq) hn
      exact plain_nicNode hj
    · obtain ⟨p, _, hp⟩ := List.mem_flatMap.mp hn
      unfold Topology.Builder.bridgeNodes at hp
      split_ifs at hp
      · rw [List.mem_singleton.mp hp]
        exact plain_empty
      · cases hp
    · unfold Topology.Builder.switchNodes at hn
      split_ifs at hn
      · cases hn
      · rw [List.mem_singleton.mp hn]
        exact plain_empty
  · intro e he
    unfold Trace.model at he
    simp only [List.mem_append] at he
    rcases he with (he | he) | he
    · obtain ⟨p, _, hp⟩ := List.mem_flatMap.mp he
      exact plain_pciEdges hp
    · obtain ⟨pair, _, hpair⟩ := List.mem_flatMap.mp he
      simp only at hpair
      split_ifs at hpair
      · rw [List.mem_singleton.mp hpair]
        exact plain_nvlinkEdge _ _ _
      · cases hpair
    · obtain ⟨entry, _, rfl⟩ := List.mem_map.mp he
      exact plain_nvlinkEdge _ _ _

theorem map_eq_of_injOn {A B : Type*} {f : A -> B} {P : A -> Prop}
    (hf : forall x y, P x -> P y -> f x = f y -> x = y) {xs ys : List A}
    (hxs : forall x, x ∈ xs -> P x) (hys : forall y, y ∈ ys -> P y)
    (h : xs.map f = ys.map f) : xs = ys := by
  induction xs generalizing ys with
  | nil => exact (List.map_eq_nil_iff.mp h.symm).symm
  | cons x xs ih =>
      cases ys with
      | nil => cases h
      | cons y ys =>
          rw [List.forall_mem_cons] at hxs hys
          rw [List.map_cons, List.map_cons, List.cons.injEq] at h
          rw [hf x y hxs.1 hys.1 h.1, ih hxs.2 hys.2 h.2]

/-- The document of a model determines its nodes and edges up to their order. -/
theorem perm_of_toJson_eq {a b : Model} (ha : PlainModel a) (hb : PlainModel b)
    (h : Topology.toJson a = Topology.toJson b) :
    a.nodes.Perm b.nodes ∧ a.edges.Perm b.edges := by
  unfold Topology.toJson at h
  simp only [Json.obj.injEq, List.cons.injEq, Prod.mk.injEq, Json.arr.injEq, true_and,
    and_true] at h
  have hnodes := map_eq_of_injOn (fun _ _ => nodeJson_injective)
    (fun n hn => ha.nodes n ((Sorting.stableSort_perm _ _).mem_iff.mp hn))
    (fun n hn => hb.nodes n ((Sorting.stableSort_perm _ _).mem_iff.mp hn)) h.2
  have hedges := map_eq_of_injOn (fun _ _ => edgeJson_injective)
    (fun e he => ha.edges e ((Sorting.stableSort_perm _ _).mem_iff.mp he))
    (fun e he => hb.edges e ((Sorting.stableSort_perm _ _).mem_iff.mp he)) h.1
  have hsorted := Sorting.stableSort_perm Node.key a.nodes
  have hsorted' := Sorting.stableSort_perm Topology.edgeSortKey a.edges
  rw [hnodes] at hsorted
  rw [hedges] at hsorted'
  exact ⟨hsorted.symm.trans (Sorting.stableSort_perm _ _),
    hsorted'.symm.trans (Sorting.stableSort_perm _ _)⟩

/-!
## Checking against a golden file
-/

section Checks

variable {host : Host} {disk : Disk}

theorem plain_of_load {dir : String} {model : Model} (h : load host disk dir = .ok model) :
    PlainModel model := by
  obtain ⟨fixture, _, h⟩ := Fallible.bind_eq_ok.mp h
  cases hbuild : build fixture.facts with
  | ok built =>
      rw [hbuild] at h
      cases h
      exact plain_of_build hbuild
  | error fault =>
      rw [hbuild] at h
      cases fault <;> cases h

theorem plain_of_readInput {dir : String} {model : Model}
    (h : readInput host disk dir = .ok (.machine model)) : PlainModel model := by
  obtain ⟨pair, _, h⟩ := Fallible.bind_eq_ok.mp h
  cases pair with
  | true =>
      obtain ⟨_, _, h⟩ := Fallible.bind_eq_ok.mp h
      obtain ⟨_, _, h⟩ := Fallible.bind_eq_ok.mp h
      obtain ⟨_, _, h⟩ := Fallible.bind_eq_ok.mp h
      cases h
  | false =>
      obtain ⟨_, hload, h⟩ := Fallible.bind_eq_ok.mp h
      cases h
      exact plain_of_load hload

/-- Models whose documents agree have the same id, if they have one at all. -/
theorem topo1_eq_of_toJson_eq (hdump : Function.Injective host.dump) {a b : Model}
    (ha : PlainModel a) (hb : PlainModel b) (h : Topology.toJson a = Topology.toJson b)
    {ida idb : String} (hida : topo1 host a = .ok ida) (hidb : topo1 host b = .ok idb) :
    ida = idb := by
  obtain ⟨ta, hta, hnamea⟩ := topo1_eq_ok hida
  obtain ⟨tb, htb, hnameb⟩ := topo1_eq_ok hidb
  obtain ⟨hnodes, hedges⟩ := perm_of_toJson_eq ha hb h
  obtain ⟨g, hg, _⟩ := exists_isLeast hdump htb
  have haccepted := Topology.Identity.strip_ok_iff.mp ⟨g, hg⟩
  have hiso := Topology.Builder.isomorphic_of_perm hnodes hedges haccepted
  rw [hnamea, hnameb, identityOf_eq_of_isomorphic hdump hta htb hiso]

/-- Inputs with the same text have the same id. -/
theorem id_eq_of_text_eq (hdump : Function.Injective host.dump)
    (hindented : Function.Injective host.dumpIndented) {dira dirb : String} {a b : Input}
    (ha : readInput host disk dira = .ok a) (hb : readInput host disk dirb = .ok b) {text : String}
    (htexta : a.text host = .ok text) (htextb : b.text host = .ok text) {ida idb : String}
    (hida : a.id host = .ok ida) (hidb : b.id host = .ok idb) : ida = idb := by
  have hdoc : forall {x y : Json}, host.dumpIndented x ++ "\n" = text ->
      host.dumpIndented y ++ "\n" = text -> x = y := by
    intro x y hx hy
    exact hindented ((String.append_left_inj _).mp (hx.trans hy.symm))
  cases a with
  | machine ma =>
      have hma : host.dumpIndented (Topology.toJson ma) ++ "\n" = text := Except.ok.inj htexta
      cases b with
      | machine mb =>
          have hmb : host.dumpIndented (Topology.toJson mb) ++ "\n" = text := Except.ok.inj htextb
          exact topo1_eq_of_toJson_eq hdump (plain_of_readInput ha) (plain_of_readInput hb)
            (hdoc hma hmb) hida hidb
      | pair file m0 m1 =>
          obtain ⟨id, _, htextb⟩ := Fallible.bind_eq_ok.mp htextb
          have hsame := hdoc hma (Except.ok.inj htextb)
          unfold Topology.toJson pairJson at hsame
          simp at hsame
  | pair file m0 m1 =>
      obtain ⟨id, hid, htexta⟩ := Fallible.bind_eq_ok.mp htexta
      cases b with
      | machine mb =>
          have hmb : host.dumpIndented (Topology.toJson mb) ++ "\n" = text := Except.ok.inj htextb
          have hsame := hdoc (Except.ok.inj htexta) hmb
          unfold Topology.toJson pairJson at hsame
          simp at hsame
      | pair file' m0' m1' =>
          obtain ⟨id', hid', htextb⟩ := Fallible.bind_eq_ok.mp htextb
          have hsame := hdoc (Except.ok.inj htexta) (Except.ok.inj htextb)
          unfold pairJson at hsame
          simp only [Json.obj.injEq, List.cons.injEq, Prod.mk.injEq, Json.str.injEq, true_and,
            and_true] at hsame
          have hida' : pairIdOf host file.json m0 m1 = .ok ida := hida
          have hidb' : pairIdOf host file'.json m0' m1' = .ok idb := hidb
          rw [hid] at hida'
          rw [hid'] at hidb'
          rw [<- Except.ok.inj hida', <- Except.ok.inj hidb', hsame.2]

theorem modelText_eq_ok {dir : String} {bytes : Bytes} (h : modelText host disk dir = .ok bytes) :
    exists input text, readInput host disk dir = .ok input ∧ input.text host = .ok text ∧
      bytes = utf8 text := by
  obtain ⟨input, hinput, h⟩ := Fallible.bind_eq_ok.mp h
  obtain ⟨text, htext, h⟩ := Fallible.bind_eq_ok.mp h
  exact ⟨input, text, hinput, htext, (Except.ok.inj h).symm⟩

theorem sideOf_input {dir : String} {input : Input} {text : String} {side : Side}
    (hinput : readInput host disk dir = .ok input) (htext : input.text host = .ok text)
    (h : sideOf host disk dir = .ok side) :
    input.id host = .ok side.id ∧ side.model = utf8 text := by
  unfold sideOf at h
  rw [hinput, Fallible.ok_bind] at h
  obtain ⟨id, hid, h⟩ := Fallible.bind_eq_ok.mp h
  obtain ⟨doc, _, h⟩ := Fallible.bind_eq_ok.mp h
  rw [htext, Fallible.ok_bind] at h
  cases h
  exact ⟨hid, rfl⟩

theorem diffSides_agree {sa sb : Side} (hid : sa.id = sb.id) (hmodel : sa.model = sb.model) :
    diffSides sa sb =
      ⟨kOk, utf8 ("a: " ++ sa.id ++ "\nb: " ++ sa.id ++ "\nsame topology\n")⟩ := by
  have hverdict : "\n" ++ "same topology\n" = "\nsame topology\n" := by decide
  unfold diffSides verdict
  simp only [hid, hmodel, decide_true, if_true, ne_eq, not_true_eq_false, and_false, if_false,
    List.append_nil, String.append_assoc, hverdict]

/-- A check returns 0 for equal texts, and otherwise shows a line, unless a newline is missing at
the end of the expected text alone. -/
theorem checkText_spec (expected actual : Bytes) :
    checkText expected actual = ⟨kOk, []⟩ ∧ expected = actual ∨
      (checkText expected actual).exit = kMismatch ∧ expected ≠ actual ∧
        (0 < consumed (linesOf expected) (linesOf actual) ∨ ended expected = ended actual) := by
  unfold checkText
  by_cases hsame : expected = actual
  · left
    rw [if_pos hsame]
    exact ⟨rfl, hsame⟩
  · right
    rw [if_neg hsame]
    refine ⟨rfl, hsame, ?_⟩
    by_cases hlines : linesOf expected = linesOf actual
    · exact Or.inr (linesOf_eq_iff.mp hlines)
    · exact Or.inl (consumed_pos hlines)

/--
A fixture that passes the check against the model of another one is the same topology for the
tool: if a comparison of the two returns, it returns 0, and shows no difference.
-/
theorem cmdModel_check_diff (hdump : Function.Injective host.dump)
    (hindented : Function.Injective host.dumpIndented) {a b path : String} {golden : Bytes}
    (hgolden : cmdModel host disk b none = .ok ⟨kOk, golden⟩)
    (hfile : opened disk path = some (.ok golden)) {checked o : Outcome}
    (hcheck : cmdModel host disk a (some path) = .ok checked) (hexit : checked.exit = kOk)
    (hdiff : cmdDiff host disk a b = .ok o) :
    exists id, o = ⟨kOk, utf8 ("a: " ++ id ++ "\nb: " ++ id ++ "\nsame topology\n")⟩ := by
  obtain ⟨actual, hactual, hcheck⟩ := Fallible.bind_eq_ok.mp hcheck
  obtain ⟨bytes, hbytes, hgolden⟩ := Fallible.bind_eq_ok.mp hgolden
  cases hgolden
  dsimp only at hcheck
  rw [hfile] at hcheck
  have houtcome : checkText golden actual = checked := Except.ok.inj hcheck
  have hsame : golden = actual := by
    rcases checkText_spec golden actual with hequal | hmismatch
    · exact hequal.2
    · rw [houtcome, hexit] at hmismatch
      exact absurd hmismatch.1 (by decide)
  obtain ⟨ia, ta, hia, hta, hnamea⟩ := modelText_eq_ok hactual
  obtain ⟨ib, tb, hib, htb, hnameb⟩ := modelText_eq_ok hbytes
  have htext : ta = tb := by
    rw [hnamea, hnameb] at hsame
    exact (Capture.utf8_injective hsame).symm
  rw [htext] at hta
  obtain ⟨sa, sb, hsa, hsb, rfl⟩ := cmdDiff_eq_ok hdiff
  obtain ⟨hida, hmodela⟩ := sideOf_input hia hta hsa
  obtain ⟨hidb, hmodelb⟩ := sideOf_input hib htb hsb
  have hid := id_eq_of_text_eq hdump hindented hia hib hta htb hida hidb
  exact ⟨sa.id, diffSides_agree hid (hmodela.trans hmodelb.symm)⟩

/-- Another machine with two NICs, and the golden file of the first. -/
def goldenDisk : Disk := fun path =>
  if path = "golden.json" then
    plainFile (utf8 (Topology.canonicalDump Topology.Pretty.dump (nicsModel [1, 2])))
  else if path = "c/hwloc.xml" then plainFile (nicsXml [1, 2])
  else if path = "c/nics.json" then plainFile (utf8 (Topology.Compact.dump (nicsDoc [1, 2])))
  else nicsDisk path

theorem readInput_golden {dir : String} (hdir : dir = "b" ∨ dir = "c") :
    readInput nicsHost goldenDisk dir = .ok (.machine (nicsModel [1, 2])) := by
  have htwo : [1, 2] ∈ kBuses := List.mem_cons_of_mem _ List.mem_cons_self
  rcases hdir with rfl | rfl
  · exact readInput_of_load rfl (load_nics htwo (by simp) ⟨rfl, rfl, rfl, rfl⟩)
  · exact readInput_of_load rfl (load_nics htwo (by simp) ⟨rfl, rfl, rfl, rfl⟩)

theorem cmdModel_check_diff_golden : exists o, cmdDiff nicsHost goldenDisk "c" "b" = .ok o ∧
    exists id, o = ⟨kOk, utf8 ("a: " ++ id ++ "\nb: " ++ id ++ "\nsame topology\n")⟩ := by
  have htwo : [1, 2] ∈ kBuses := List.mem_cons_of_mem _ List.mem_cons_self
  have hb := readInput_golden (Or.inl rfl)
  have hc := readInput_golden (Or.inr rfl)
  rcases sideOf_nics htwo (by simp) hc with ⟨sc, hsc⟩
  rcases sideOf_nics htwo (by simp) hb with ⟨sb, hsb⟩
  have ho := cmdDiff_of_sides rfl rfl hsc hsb
  refine ⟨_, ho, @cmdModel_check_diff nicsHost goldenDisk Topology.Compact.dump_injective
    Topology.Pretty.dump_injective "c" "b" "golden.json" _ ?_ rfl ⟨kOk, []⟩ _ ?_ rfl ho⟩
  · unfold cmdModel modelText
    rw [hb]
    rfl
  · unfold cmdModel modelText
    rw [hc]
    exact congrArg Except.ok (if_pos rfl)

end Checks

end Tool
end Ostia

import Ostia.Foundation.Reordering
import Ostia.Topology.BuilderContract
import Ostia.Topology.BuilderLinks

/-!
# The order of the facts does not matter

Permuting the PCI entries, the NUMA indices, the GPUs, their NVLinks and the
NICs permutes the nodes and edges of the model and changes neither its golden
file nor its identity.
-/

namespace Ostia
namespace Topology

open Foundation

namespace Builder

/-!
## Permuted facts
-/

/-- Arrays whose entries are related in some order; other values are the same. -/
def ArrayReordered (R : Json -> Json -> Prop) : Json -> Json -> Prop
  | .arr xs, .arr ys => Reordered R xs ys
  | v, v' => v = v'

/-- Values of a member: related for the named members, the same for the others. -/
def OnlyMembers (keys : List String) (R : Json -> Json -> Prop) (key : String)
    (v v' : Json) : Prop :=
  if key ∈ keys then R v v' else v = v'

/-- Objects with the same members in order, related by key; other values are the same. -/
def MembersRelated (R : String -> Json -> Json -> Prop) : Json -> Json -> Prop
  | .obj fields, .obj fields' =>
      List.Forall₂ (fun e e' => e.1 = e'.1 ∧ R e.1 e.2 e'.2) fields fields'
  | j, j' => j = j'

def GpuReordered : Json -> Json -> Prop :=
  MembersRelated (OnlyMembers ["nvlinks"] (ArrayReordered Eq))

def PciReordered (p q : PciFacts) : Prop :=
  q = { p with numa := q.numa } ∧ p.numa.Perm q.numa

/-- Facts that differ in the order of what a probe enumerates. -/
structure Permuted (facts facts' : Facts) : Prop where
  packages : facts.packages = facts'.packages
  numaNodes : facts.numaNodes.Perm facts'.numaNodes
  pci : Reordered PciReordered facts.pci facts'.pci
  nvml : MembersRelated (OnlyMembers ["gpus"] (ArrayReordered GpuReordered))
    facts.nvml facts'.nvml
  nics : MembersRelated (OnlyMembers ["nics", "rdma"] (ArrayReordered Eq))
    facts.nics facts'.nics

/-!
## Reading reordered documents
-/

theorem MembersRelated.refl {R : String -> Json -> Json -> Prop}
    (hR : forall key v, R key v v) (j : Json) : MembersRelated R j j := by
  cases j with
  | obj fields => exact List.forall₂_same.mpr (fun e _ => ⟨rfl, hR e.1 e.2⟩)
  | _ => exact rfl

theorem MembersRelated.get? {R : String -> Json -> Json -> Prop} {j j' : Json}
    (h : MembersRelated R j j') (key : String) :
    Option.Rel (R key) (j.get? key) (j'.get? key) := by
  unfold MembersRelated at h
  split at h
  · rename_i fields fields'
    show Option.Rel (R key) (OrdMap.lookup key fields) (OrdMap.lookup key fields')
    induction h with
    | nil => exact Option.Rel.none
    | cons hee' _ ih =>
        rw [OrdMap.lookup, OrdMap.lookup, ← hee'.1]
        split_ifs with hkey
        · rw [← hkey]
          exact Option.Rel.some hee'.2
        · exact ih
  · rename_i hnot
    subst h
    cases j with
    | obj fields => exact absurd rfl (hnot fields fields rfl)
    | _ => exact Option.Rel.none

theorem MembersRelated.isObject {R : String -> Json -> Json -> Prop} {j j' : Json}
    (h : MembersRelated R j j') : j.isObject = j'.isObject := by
  unfold MembersRelated at h
  split at h
  · rfl
  · rw [h]

/-- A member that reads in one document reads in a related one. -/
theorem MembersRelated.member_ok {R : String -> Json -> Json -> Prop} {j j' v : Json}
    (h : MembersRelated R j j') {key : String} (hv : member j key = .ok v) :
    exists v', member j' key = .ok v' ∧ R key v v' := by
  have hrel := h.get? key
  rw [member_eq_ok.mp hv] at hrel
  cases hget : j'.get? key with
  | none =>
      rw [hget] at hrel
      cases hrel
  | some v' =>
      rw [hget] at hrel
      cases hrel with
      | some hrel => exact ⟨v', member_of_get? hget, hrel⟩

section Other

variable {keys : List String} {R : Json -> Json -> Prop} {j j' : Json}
  (h : MembersRelated (OnlyMembers keys R) j j') {key : String} (hkey : key ∉ keys)

include h hkey

theorem member_other {v : Json} (hv : member j key = .ok v) : member j' key = .ok v := by
  rcases h.member_ok hv with ⟨v', hv', hrel⟩
  unfold OnlyMembers at hrel
  rw [if_neg hkey] at hrel
  rw [hrel]
  exact hv'

theorem stringMember_other {s : String} (hs : stringMember j key = .ok s) :
    stringMember j' key = .ok s := by
  unfold stringMember at hs ⊢
  rw [Fallible.bind_eq_ok] at hs ⊢
  rcases hs with ⟨v, hv, hs⟩
  exact ⟨v, member_other h hkey hv, hs⟩

theorem integerMember_other {n : Int} (hn : integerMember j key = .ok n) :
    integerMember j' key = .ok n := by
  unfold integerMember at hn ⊢
  rw [Fallible.bind_eq_ok] at hn ⊢
  rcases hn with ⟨v, hv, hn⟩
  exact ⟨v, member_other h hkey hv, hn⟩

end Other

theorem ArrayReordered.refl {R : Json -> Json -> Prop} (hR : forall v, R v v) (v : Json) :
    ArrayReordered R v v := by
  cases v with
  | arr xs => exact ⟨xs, List.forall₂_same.mpr (fun x _ => hR x), List.Perm.refl xs⟩
  | _ => exact rfl

theorem OnlyMembers.refl {keys : List String} {R : Json -> Json -> Prop}
    (hR : forall v, R v v) (key : String) (v : Json) : OnlyMembers keys R key v v := by
  unfold OnlyMembers
  split_ifs
  · exact hR v
  · rfl

theorem GpuReordered.refl (g : Json) : GpuReordered g g :=
  MembersRelated.refl (OnlyMembers.refl (ArrayReordered.refl (fun _ => rfl))) g

theorem ArrayReordered.elements {R : Json -> Json -> Prop} (hR : forall v, R v v)
    {v v' : Json} (h : ArrayReordered R v v') :
    Reordered R (elements v) (elements v') := by
  unfold ArrayReordered at h
  split at h
  · exact h
  · rw [h]
    exact ⟨_, List.forall₂_same.mpr (fun x _ => hR x), List.Perm.refl _⟩

/-!
## Devices and bridges
-/

theorem PciReordered.key {p q : PciFacts} (h : PciReordered p q) : q.key = p.key := by
  rw [h.1]

/-- Lookups that agree up to the order of NUMA indices. -/
def PciRelated (pci pci' : OrdMap String PciFacts) : Prop :=
  forall k, Option.Rel PciReordered (pci.find? k) (pci'.find? k)

theorem keys_nodup_of_reordered {ps qs : List PciFacts} (h : Reordered PciReordered ps qs)
    (hkeys : (ps.map PciFacts.key).Nodup) : (qs.map PciFacts.key).Nodup := by
  have hperm : (ps.map PciFacts.key).Perm (qs.map PciFacts.key) :=
    h.map_perm (fun _ _ hpq => hpq.key.symm)
  exact hperm.nodup_iff.mp hkeys

theorem byKey_related {facts facts' : Facts}
    (h : Reordered PciReordered facts.pci facts'.pci)
    (hkeys : (facts.pci.map PciFacts.key).Nodup) :
    PciRelated (byKey facts) (byKey facts') := by
  have hkeys' := keys_nodup_of_reordered h hkeys
  intro k
  cases hfind : (byKey facts).find? k with
  | none =>
      cases hfind' : (byKey facts').find? k with
      | none => exact Option.Rel.none
      | some q =>
          rcases (byKey_find? facts' k).1 q hfind' with ⟨hq, hqk⟩
          rcases h.exists_left hq with ⟨p, hp, hpq⟩
          have hp := byKey_of_mem hkeys hp
          rw [← hpq.key, hqk, hfind] at hp
          cases hp
  | some p =>
      rcases (byKey_find? facts k).1 p hfind with ⟨hp, hpk⟩
      rcases h.exists_right hp with ⟨q, hq, hpq⟩
      have hq := byKey_of_mem hkeys' hq
      rw [hpq.key, hpk] at hq
      rw [hq]
      exact Option.Rel.some hpq

section Related

variable {pci pci' : OrdMap String PciFacts} (h : PciRelated pci pci')

include h

theorem PciRelated.findDevice_ok {id file : String} {p : PciFacts}
    (hp : findDevice pci id file = .ok p) :
    exists q, findDevice pci' id file = .ok q ∧ PciReordered p q := by
  rw [findDevice_eq_ok] at hp
  have hrel := h id
  rw [hp.1] at hrel
  cases hfind : pci'.find? id with
  | none =>
      rw [hfind] at hrel
      cases hrel
  | some q =>
      rw [hfind] at hrel
      cases hrel with
      | some hpq =>
          refine ⟨q, findDevice_eq_ok.mpr ⟨hfind, ?_⟩, hpq⟩
          rw [hpq.1]
          exact hp.2

theorem PciRelated.gpuNode_ok {g g' : Json} (hg : GpuReordered g g') {node : Node}
    (hnode : gpuNode pci g = .ok node) : gpuNode pci' g' = .ok node := by
  unfold gpuNode at hnode ⊢
  simp only [Fallible.bind_eq_ok] at hnode ⊢
  rcases hnode with ⟨id, hid, p, hp, name, hname, major, hmajor, minor, hminor, memory,
    hmemory, ordinal, hordinal, hnode⟩
  rcases h.findDevice_ok hp with ⟨q, hq, _⟩
  exact ⟨id, stringMember_other hg (by decide) hid, q, hq,
    name, stringMember_other hg (by decide) hname,
    major, integerMember_other hg (by decide) hmajor,
    minor, integerMember_other hg (by decide) hminor,
    memory, integerMember_other hg (by decide) hmemory,
    ordinal, integerMember_other hg (by decide) hordinal, hnode⟩

theorem PciRelated.nicNode_ok {nics nics' : Json}
    (hnics : MembersRelated (OnlyMembers ["nics", "rdma"] (ArrayReordered Eq)) nics nics')
    {rdma : StringSet} {n : Json} {node : Node}
    (hnode : nicNode pci nics rdma n = .ok node) :
    nicNode pci' nics' rdma n = .ok node := by
  unfold nicNode at hnode ⊢
  simp only [Fallible.bind_eq_ok] at hnode ⊢
  rcases hnode with ⟨id, hid, p, hp, driver, hdriver, layer, hlayer, numa, hnuma, speed,
    hspeed, value, hvalue, probe, hprobe, hnode⟩
  rcases h.findDevice_ok hp with ⟨q, hq, hpq⟩
  refine ⟨id, hid, q, hq, driver, hdriver, layer, hlayer, numa, hnuma, speed, hspeed,
    value, hvalue, probe, stringMember_other hnics (by decide) hprobe, ?_⟩
  -- The attributes of a NIC do not include the NUMA indices of its device.
  rw [hpq.1]
  exact hnode

theorem PciRelated.keepAncestors_eq (fuel : Nat) (k : String) (kept : StringSet) :
    keepAncestors pci fuel k kept = keepAncestors pci' fuel k kept := by
  induction fuel generalizing k kept with
  | zero => rfl
  | succ fuel ih =>
      rw [keepAncestors, keepAncestors]
      have hrel := h k
      cases hfind : pci.find? k with
      | none =>
          rw [hfind] at hrel
          generalize hfind' : pci'.find? k = found at hrel
          cases hrel
          rfl
      | some p =>
          rw [hfind] at hrel
          generalize hfind' : pci'.find? k = found at hrel
          cases hrel with
          | some hpq =>
              rw [hpq.1]
              simp only [ih]

theorem PciRelated.keepBridges_eq (leaves : StringSet) :
    keepBridges pci leaves = keepBridges pci' leaves := by
  have hkeys : pci.keys = pci'.keys := by
    apply OrdMap.keys_congr
    intro k
    unfold OrdMap.contains
    have hrel := h k
    generalize pci.find? k = x, pci'.find? k = y at hrel
    cases hrel with
    | none => rfl
    | some _ => rfl
  have hlength : pci.entries.length = pci'.entries.length := by
    have hlen := congrArg List.length hkeys
    unfold OrdMap.keys at hlen
    rwa [List.length_map, List.length_map] at hlen
  unfold keepBridges
  congr 1
  funext kept leaf
  unfold keepLeaf
  have hrel := h leaf
  generalize pci.find? leaf = x, pci'.find? leaf = y at hrel
  cases hrel with
  | none => rfl
  | some hpq =>
      rw [hpq.1, hlength]
      exact h.keepAncestors_eq _ _ _

end Related

/-!
## Link tables
-/

/-- The reports of one GPU in some order. -/
def RowReordered (row row' : String × List LinkReport) : Prop :=
  row.1 = row'.1 ∧ row.2.Perm row'.2

theorem gpuReports_ok {gpuKeys : StringSet} {g g' : Json} (hg : GpuReordered g g')
    {row : Option (String × List LinkReport)} (hrow : gpuReports gpuKeys g = .ok row) :
    exists row', gpuReports gpuKeys g' = .ok row' ∧ Option.Rel RowReordered row row' := by
  unfold gpuReports at hrow ⊢
  rw [Fallible.bind_eq_ok] at hrow
  rcases hrow with ⟨v, hv, hrow⟩
  rcases hg.member_ok hv with ⟨v', hv', hrel⟩
  unfold OnlyMembers at hrel
  rw [if_pos (by decide)] at hrel
  rw [hv']
  unfold ArrayReordered at hrel
  split at hrel
  · dsimp only at hrow
    simp only [Fallible.bind_eq_ok] at hrow
    rcases hrow with ⟨self, hself, reports, hreports, hrow⟩
    have hread : forall l l', l = l' -> forall r, readLink gpuKeys self l = .ok r ->
        exists r', readLink gpuKeys self l' = .ok r' ∧ r = r' := by
      intro l l' hl r hr
      rw [← hl]
      exact ⟨r, hr, rfl⟩
    rcases hrel.mapM_ok hread hreports with ⟨reports', hreports', hperm⟩
    injection hrow with hrow
    refine ⟨some (self, reports'), ?_, ?_⟩
    · show (stringMember g' "bus_id" >>= fun self => _ >>= fun reports => _) = _
      rw [stringMember_other hg (by decide) hself]
      show (List.mapM (readLink gpuKeys self) _ >>= fun reports => _) = _
      rw [hreports']
      rfl
    · rw [← hrow]
      exact Option.Rel.some ⟨rfl, hperm.perm⟩
  · rename_i hnot
    subst hrel
    cases v with
    | arr ls => exact absurd rfl (hnot ls ls rfl)
    | _ =>
        injection hrow with hrow
        rw [← hrow]
        exact ⟨none, rfl, Option.Rel.none⟩

theorem increment_comm (m : OrdMap String Int) (a b : String) :
    increment (increment m a) b = increment (increment m b) a := by
  by_cases hab : a = b
  · rw [hab]
  · unfold increment
    rw [OrdMap.find?_insert_of_ne m _ (Ne.symm hab), OrdMap.find?_insert_of_ne m _ hab,
      OrdMap.insert_comm m _ _ hab]

theorem countPeer_comm (peers : OrdMap String Int) (r r' : LinkReport) :
    countPeer (countPeer peers r) r' = countPeer (countPeer peers r') r := by
  cases r with
  | toGpu remote =>
      cases r' with
      | toGpu remote' => exact increment_comm peers remote remote'
      | _ => rfl
  | _ => rfl

theorem countSwitch_comm (self self' : String) (toSwitch : OrdMap String Int)
    (r r' : LinkReport) :
    countSwitch self' (countSwitch self toSwitch r) r' =
      countSwitch self (countSwitch self' toSwitch r') r := by
  cases r with
  | toSwitch =>
      cases r' with
      | toSwitch => exact increment_comm toSwitch self self'
      | _ => rfl
  | _ => rfl

theorem addReports_congr {row row' : String × List LinkReport} (h : RowReordered row row')
    (tables : LinkTables) : addReports tables row = addReports tables row' := by
  unfold addReports
  dsimp only
  rw [foldl_countReport, foldl_countReport, h.1]
  rw [h.2.foldl_eq' (fun r _ r' _ peers => countPeer_comm peers r r'),
    h.2.foldl_eq' (fun r _ r' _ s => countSwitch_comm row'.1 row'.1 s r r')]

theorem addReports_comm {row row' : String × List LinkReport} (h : row.1 ≠ row'.1)
    (tables : LinkTables) :
    addReports (addReports tables row) row' = addReports (addReports tables row') row := by
  unfold addReports
  dsimp only
  simp only [foldl_countReport]
  rw [OrdMap.find?_insert_of_ne _ _ (Ne.symm h), OrdMap.find?_insert_of_ne _ _ h,
    OrdMap.insert_comm _ _ _ h,
    foldl_foldl_comm (fun s r r' => countSwitch_comm row.1 row'.1 s r r')]
  congr 1
  apply OrdMap.ext_contains
  intro pair
  simp only [OrdMap.contains_foldl_insert]
  exact or_right_comm

theorem addReports_comm_of_nodup {rows : List (String × List LinkReport)}
    (h : (rows.map Prod.fst).Nodup) :
    forall row, row ∈ rows -> forall row', row' ∈ rows -> forall tables,
      addReports (addReports tables row) row' =
        addReports (addReports tables row') row := by
  intro row hrow row' hrow' tables
  by_cases hself : row.1 = row'.1
  · rw [List.inj_on_of_nodup_map h hrow hrow' hself]
  · exact addReports_comm hself tables

theorem gpuReports_busId {gpuKeys : StringSet} {g : Json} {row : String × List LinkReport}
    (h : gpuReports gpuKeys g = .ok (some row)) :
    stringMember g "bus_id" = .ok row.1 := by
  unfold gpuReports at h
  rw [Fallible.bind_eq_ok] at h
  rcases h with ⟨v, _, h⟩
  cases v with
  | arr ls =>
      simp only [Fallible.bind_eq_ok] at h
      rcases h with ⟨self, hself, reports, _, h⟩
      injection h with h
      injection h with h
      rw [hself, ← h]
  | _ => cases h

/-- The GPUs with reports are listed in the order of the GPUs. -/
theorem rows_sublist {pci : OrdMap String PciFacts} {gpuKeys : StringSet}
    {gpus : List Json} {rows : List (Option (String × List LinkReport))}
    (hrows : gpus.mapM (gpuReports gpuKeys) = .ok rows) {nodes : List Node}
    (hnodes : gpus.mapM (gpuNode pci) = .ok nodes) :
    ((rows.filterMap id).map Prod.fst).Sublist (nodes.map Node.key) := by
  rw [Fallible.mapM_eq_ok] at hrows hnodes
  induction hrows generalizing nodes with
  | nil => exact List.nil_sublist _
  | @cons _ row _ _ hrow _ ih =>
      cases hnodes with
      | @cons _ node _ _ hnode hnodes =>
          cases row with
          | none => exact (ih hnodes).cons node.key
          | some row =>
              have hself := gpuReports_busId hrow
              rw [gpuNode_busId hnode] at hself
              injection hself with hself
              rw [List.map_cons, hself]
              exact (ih hnodes).cons_cons row.1

theorem linkTables_reordered {pci : OrdMap String PciFacts} {gpuKeys : StringSet}
    {gpus gpus' : List Json} (hgpus : Reordered GpuReordered gpus gpus')
    {nodes : List Node} (hnodes : gpus'.mapM (gpuNode pci) = .ok nodes)
    (hkeys : (nodes.map Node.key).Nodup) {tables : LinkTables}
    (htables : linkTables gpuKeys gpus = .ok tables) :
    linkTables gpuKeys gpus' = .ok tables := by
  unfold linkTables at htables ⊢
  rw [Fallible.bind_eq_ok] at htables ⊢
  rcases htables with ⟨rows, hrows, htables⟩
  rcases hgpus.mapM_ok (fun _ _ hg _ hrow => gpuReports_ok hg hrow) hrows with
    ⟨rows', hrows', hreordered⟩
  refine ⟨rows', hrows', ?_⟩
  rw [← htables]
  congr 1
  symm
  apply hreordered.filterMap_id.foldl_eq (fun _ _ hrow s => addReports_congr hrow s)
  exact addReports_comm_of_nodup (hkeys.sublist (rows_sublist hrows' hnodes))

/-!
## The permuted model
-/

theorem setOf_congr {xs ys : List String} (h : xs.Perm ys) : setOf xs = setOf ys := by
  apply OrdMap.ext_contains
  intro k
  rw [setOf_contains, setOf_contains, h.mem_iff]

/-- A trace of the permuted facts with the same devices, bridges and tables. -/
structure TracePermuted {facts facts' : Facts} (t : Trace facts) (t' : Trace facts') :
    Prop where
  gpuNodes : t.gpuNodes.Perm t'.gpuNodes
  nicNodes : t.nicNodes.Perm t'.nicNodes
  kept : t.kept = t'.kept
  tables : t.tables = t'.tables

theorem gpuEntries_reordered {facts facts' : Facts} (h : Permuted facts facts')
    {gpus : List Json} (hgpus : gpuEntries facts = .ok gpus) :
    exists gpus', gpuEntries facts' = .ok gpus' ∧ Reordered GpuReordered gpus gpus' := by
  unfold gpuEntries at hgpus ⊢
  rw [← h.nvml.isObject]
  cases hobject : facts.nvml.isObject with
  | false =>
      rw [hobject] at hgpus
      injection hgpus with hgpus
      rw [← hgpus]
      exact ⟨[], rfl, [], List.Forall₂.nil, List.Perm.refl []⟩
  | true =>
      rw [hobject, if_pos rfl, Fallible.bind_eq_ok] at hgpus
      rcases hgpus with ⟨v, hv, hgpus⟩
      rcases h.nvml.member_ok hv with ⟨v', hv', hrel⟩
      unfold OnlyMembers at hrel
      rw [if_pos (by decide)] at hrel
      injection hgpus with hgpus
      rw [if_pos rfl, hv', ← hgpus]
      exact ⟨elements v', rfl, hrel.elements GpuReordered.refl⟩

theorem nicsMember_reordered {facts facts' : Facts} (h : Permuted facts facts')
    {key : String} (hkey : key ∈ ["nics", "rdma"]) {v : Json}
    (hv : member facts.nics key = .ok v) :
    exists v', member facts'.nics key = .ok v' ∧ (elements v).Perm (elements v') := by
  rcases h.nics.member_ok hv with ⟨v', hv', hrel⟩
  unfold OnlyMembers at hrel
  rw [if_pos hkey] at hrel
  exact ⟨v', hv', (hrel.elements (fun _ => rfl)).perm⟩

/-- A fallible map over a permuted list. -/
theorem mapM_perm {A B : Type} {f f' : A -> Except Fault B} {xs xs' : List A}
    (h : xs.Perm xs') (hf : forall x y, f x = .ok y -> f' x = .ok y) {ys : List B}
    (hys : xs.mapM f = .ok ys) : exists ys', xs'.mapM f' = .ok ys' ∧ ys.Perm ys' := by
  have hread : forall x x', x = x' -> forall y, f x = .ok y ->
      exists y', f' x' = .ok y' ∧ y = y' := by
    intro x x' hx y hy
    rw [← hx]
    exact ⟨y, hf x y hy, rfl⟩
  rcases (Reordered.of_perm h).mapM_ok hread hys with ⟨ys', hys', hperm⟩
  exact ⟨ys', hys', hperm.perm⟩

theorem exists_tracePermuted {facts facts' : Facts} (h : Permuted facts facts')
    (hkeys : (facts.pci.map PciFacts.key).Nodup) (t : Trace facts)
    (hgpus : (t.gpuNodes.map Node.key).Nodup) :
    exists t' : Trace facts', TracePermuted t t' := by
  have hpci := byKey_related h.pci hkeys
  rcases gpuEntries_reordered h t.gpus_eq with ⟨gpus, hgpusEq, hgpusRel⟩
  have hgpuRead : forall g g', GpuReordered g g' -> forall node,
      gpuNode (byKey facts) g = .ok node ->
        exists node', gpuNode (byKey facts') g' = .ok node' ∧ node = node' := by
    intro g g' hg node hnode
    exact ⟨node, hpci.gpuNode_ok hg hnode, rfl⟩
  rcases hgpusRel.mapM_ok hgpuRead t.gpuNodes_eq with ⟨gpuNodes, hgpuNodes, hgpuPerm⟩
  have hgpuPerm := hgpuPerm.perm
  rcases nicsMember_reordered h (by decide) t.rdma_eq with ⟨rdma, hrdma, hrdmaPerm⟩
  rcases mapM_perm hrdmaPerm (fun _ _ hy => hy) t.rdmaIds_eq with
    ⟨rdmaIds, hrdmaIds, hrdmaIdsPerm⟩
  rcases nicsMember_reordered h (by decide) t.nics_eq with ⟨nics, hnics, hnicsPerm⟩
  have hnicRead : forall n node,
      nicNode (byKey facts) facts.nics (setOf t.rdmaIds) n = .ok node ->
        nicNode (byKey facts') facts'.nics (setOf rdmaIds) n = .ok node := by
    intro n node hnode
    rw [← setOf_congr hrdmaIdsPerm]
    exact hpci.nicNode_ok h.nics hnode
  rcases mapM_perm hnicsPerm hnicRead t.nicNodes_eq with ⟨nicNodes, hnicNodes, hnicPerm⟩
  have hleaves : setOf (t.gpuNodes.map Node.key ++ t.nicNodes.map Node.key) =
      setOf (gpuNodes.map Node.key ++ nicNodes.map Node.key) :=
    setOf_congr ((hgpuPerm.map Node.key).append (hnicPerm.map Node.key))
  have hkept := t.kept_eq
  rw [hleaves, hpci.keepBridges_eq] at hkept
  have htables := t.tables_eq
  rw [setOf_congr (hgpuPerm.map Node.key)] at htables
  have hgpuKeys := (hgpuPerm.map Node.key).nodup_iff.mp hgpus
  have htables := linkTables_reordered hgpusRel hgpuNodes hgpuKeys htables
  exact ⟨⟨gpus, gpuNodes, rdma, rdmaIds, nics, nicNodes, t.kept, t.tables, hgpusEq,
    hgpuNodes, hrdma, hrdmaIds, hnics, hnicNodes, hkept, htables⟩,
    hgpuPerm, hnicPerm, rfl, rfl⟩

theorem hostNodes_filter {facts facts' : Facts} (h : Permuted facts facts') (k : String) :
    (hostNodes facts).filter (fun x => decide (x.key = k)) =
      (hostNodes facts').filter (fun x => decide (x.key = k)) := by
  have hperm : (hostNodes facts).Perm (hostNodes facts') := by
    unfold hostNodes
    rw [h.packages]
    exact (List.Perm.refl _).append (h.numaNodes.map _)
  apply Sorting.filter_eq_of_perm Node.key hperm
  intro a ha b hb hab
  unfold hostNodes at ha hb
  rcases List.mem_append.mp ha with ha | ha
  · rcases List.mem_map.mp ha with ⟨i, _, rfl⟩
    rcases List.mem_append.mp hb with hb | hb
    · rcases List.mem_map.mp hb with ⟨j, _, rfl⟩
      rw [packageKey_injective hab]
    · rcases List.mem_map.mp hb with ⟨n, _, rfl⟩
      exact absurd hab (key_groups i n).1
  · rcases List.mem_map.mp ha with ⟨n, _, rfl⟩
    rcases List.mem_append.mp hb with hb | hb
    · rcases List.mem_map.mp hb with ⟨i, _, rfl⟩
      exact absurd hab.symm (key_groups i n).1
    · rcases List.mem_map.mp hb with ⟨m, _, rfl⟩
      rw [numaKey_injective hab]

theorem bridgeNodes_reordered {facts facts' : Facts} (h : Permuted facts facts')
    (kept : StringSet) (k : String) :
    (facts.pci.flatMap (bridgeNodes kept)).filter (fun x => decide (x.key = k)) =
      (facts'.pci.flatMap (bridgeNodes kept)).filter (fun x => decide (x.key = k)) := by
  have hform : forall a, a ∈ facts.pci.flatMap (bridgeNodes kept) ->
      a = ⟨NodeKind.pcieBridge, a.key, OrdMap.empty⟩ := by
    intro a ha
    rcases List.mem_flatMap.mp ha with ⟨p, _, ha⟩
    unfold bridgeNodes at ha
    split_ifs at ha
    · rw [List.mem_singleton.mp ha]
    · cases ha
  apply Sorting.filter_eq_of_perm Node.key
  · apply h.pci.flatMap_perm
    intro p q hpq
    unfold bridgeNodes
    rw [hpq.1]
  · intro a ha b hb hab
    rw [hform a ha, hform b hb, hab]

theorem pciEdges_filter {facts facts' : Facts} (h : Permuted facts facts')
    (hkeys : (facts.pci.map PciFacts.key).Nodup) (kept leaves : StringSet)
    (k : String ×ₗ String ×ₗ String) :
    (facts.pci.flatMap (pciEdges kept leaves)).filter (fun x => decide (edgeSortKey x = k)) =
      (facts'.pci.flatMap (pciEdges kept leaves)).filter
        (fun x => decide (edgeSortKey x = k)) := by
  apply Sorting.filter_eq_of_perm edgeSortKey
  · apply h.pci.flatMap_perm
    intro p q hpq
    have hkey := hpq.key
    have hparent : q.parentKey = p.parentKey := by rw [hpq.1]
    have hattrs : pcieAttrs q = pcieAttrs p := by
      rw [hpq.1]
      rfl
    unfold pciEdges
    rw [hkey, hparent, hattrs]
    split_ifs
    · exact (List.Perm.refl _).append (hpq.2.map _)
    · exact List.Perm.refl _
    · exact (List.Perm.refl _).append (hpq.2.map _)
    · exact List.Perm.refl _
    · exact List.Perm.refl _
  · intro a ha b hb hab
    rcases List.mem_flatMap.mp ha with ⟨p, hp, ha⟩
    rcases List.mem_flatMap.mp hb with ⟨q, hq, hb⟩
    unfold edgeSortKey at hab
    simp only [toLex_inj, Prod.mk.injEq] at hab
    rcases hab with ⟨hkind, hfrom, hto⟩
    have hkind := EdgeKind.toString_injective hkind
    rcases (mem_pciEdges.mp ha).2 with ⟨_, ha⟩ | ⟨_, n, _, ha⟩
    · rcases (mem_pciEdges.mp hb).2 with ⟨_, hb⟩ | ⟨_, m, _, hb⟩
      · rw [ha, hb] at hto
        rw [ha, hb, List.inj_on_of_nodup_map hkeys hp hq hto]
      · rw [ha, hb] at hkind
        cases hkind
    · rcases (mem_pciEdges.mp hb).2 with ⟨_, hb⟩ | ⟨_, m, _, hb⟩
      · rw [ha, hb] at hkind
        cases hkind
      · rw [ha, hb] at hfrom hto
        simp only at hfrom hto
        rw [ha, hb, hfrom, hto]

/-- The models of permuted traces sort to the same nodes and the same edges. -/
theorem TracePermuted.sorted_eq {facts facts' : Facts} (h : Permuted facts facts')
    (hkeys : (facts.pci.map PciFacts.key).Nodup) {t : Trace facts} {t' : Trace facts'}
    (ht : TracePermuted t t') (hgpus : (t.gpuNodes.map Node.key).Nodup)
    (hnics : (t.nicNodes.map Node.key).Nodup) :
    Sorting.stableSort Node.key t.model.nodes = Sorting.stableSort Node.key t'.model.nodes ∧
      Sorting.stableSort edgeSortKey t.model.edges =
        Sorting.stableSort edgeSortKey t'.model.edges := by
  constructor
  · apply Sorting.stableSort_congr
    intro k
    unfold Trace.model
    simp only [List.filter_append]
    rw [hostNodes_filter h, ht.kept, bridgeNodes_reordered h, ht.tables,
      Sorting.filter_eq_of_perm Node.key ht.gpuNodes
        (fun a ha b hb hab => List.inj_on_of_nodup_map hgpus ha hb hab),
      Sorting.filter_eq_of_perm Node.key ht.nicNodes
        (fun a ha b hb hab => List.inj_on_of_nodup_map hnics ha hb hab)]
  · apply Sorting.stableSort_congr
    intro k
    have hleaves : t.leaves = t'.leaves :=
      setOf_congr ((ht.gpuNodes.map Node.key).append (ht.nicNodes.map Node.key))
    unfold Trace.model
    simp only [List.filter_append]
    rw [hleaves, pciEdges_filter h hkeys, ht.kept, ht.tables]

/-!
## The identity of a permuted model
-/

/-- The same value, or errors of the same code. -/
def SameOutcome {A : Type} : Except TopologyError A -> Except TopologyError A -> Prop
  | .ok a, .ok b => a = b
  | .error e, .error e' => e.code = e'.code
  | _, _ => False

/-- The code with which stripping refuses a model. -/
theorem strip_error_code {dump : Json -> String} {model : Model} {e : TopologyError}
    (h : Identity.strip dump model = .error e) :
    e.code = if model.nodes.length > Identity.kMaxNodes then "node_cap"
      else if (model.nodes.map Node.key).Nodup then "dangling_reference"
      else "duplicate_key" := by
  unfold Identity.strip at h
  by_cases hsize : model.nodes.length > Identity.kMaxNodes
  · rw [if_pos hsize] at h ⊢
    injection h with h
    rw [← h]
  · rw [if_neg hsize] at h ⊢
    cases hrepeated : Identity.firstRepeated [] (model.nodes.map Node.key) with
    | some key =>
        rw [hrepeated] at h
        injection h with h
        rw [← h, if_neg]
        intro hnodup
        rw [Identity.firstRepeated_eq_none.mpr ⟨hnodup, fun _ _ => List.not_mem_nil⟩]
          at hrepeated
        cases hrepeated
    | none =>
        rw [hrepeated] at h
        rw [if_pos (Identity.firstRepeated_eq_none.mp hrepeated).1]
        cases hedges : model.edges.mapM
            (Identity.resolveEdge model (Identity.edgeRank dump model)) with
        | ok edges =>
            rw [hedges] at h
            cases h
        | error e' =>
            rw [hedges] at h
            injection h with h
            rw [← h]
            rcases Fallible.exists_of_mapM_eq_error hedges with ⟨edge, _, hedge⟩
            unfold Identity.resolveEdge at hedge
            split at hedge
            · cases hedge
            · injection hedge with hedge
              rw [← hedge]

section Models

variable {a b : Model} (hnodes : a.nodes.Perm b.nodes) (hedges : a.edges.Perm b.edges)

include hnodes hedges

theorem accepted_of_perm (h : Identity.Accepted a) : Identity.Accepted b := by
  have hkeys := hnodes.map Node.key
  constructor
  · rw [← hnodes.length_eq]
    exact h.size
  · exact hkeys.nodup_iff.mp h.keys
  · intro e he
    rw [← hkeys.mem_iff, ← hkeys.mem_iff]
    exact h.ends e (hedges.mem_iff.mpr he)

theorem isomorphic_of_perm (hb : Identity.Accepted b) : Identity.Isomorphic a b := by
  have hredrawn : Identity.Redrawn a b (fun k => k) := by
    constructor
    · intro x _ y _ hxy
      exact hxy
    · exact ⟨a.nodes, hnodes,
        List.forall₂_same.mpr (fun x _ => ⟨rfl, rfl, fun _ _ => rfl⟩)⟩
    · exact ⟨a.edges, hedges, List.forall₂_same.mpr
        (fun e _ => ⟨⟨rfl, fun _ _ => rfl⟩, Or.inl ⟨rfl, rfl⟩⟩)⟩
  exact Identity.isomorphic_of_redrawn hb hredrawn

/-- Below the cap on leaves, a permuted model has the same identity or the same error code. -/
theorem topo1_sameOutcome {dump : Json -> String} (hdump : Function.Injective dump)
    (sha256Hex : String -> String)
    (hcapa : Identity.canonicalIdentityJson dump a ≠ .error Identity.leafCap)
    (hcapb : Identity.canonicalIdentityJson dump b ≠ .error Identity.leafCap) :
    SameOutcome (Identity.topo1 dump sha256Hex a) (Identity.topo1 dump sha256Hex b) := by
  have hiff : Identity.Accepted a <-> Identity.Accepted b :=
    ⟨accepted_of_perm hnodes hedges, accepted_of_perm hnodes.symm hedges.symm⟩
  unfold Identity.topo1
  cases ha : Identity.strip dump a with
  | error e =>
      cases hb : Identity.strip dump b with
      | ok g =>
          rcases Identity.strip_ok_iff.mpr (hiff.mpr (Identity.strip_ok_iff.mp ⟨g, hb⟩)) with
            ⟨g', hg'⟩
          rw [ha] at hg'
          cases hg'
      | error e' =>
          have hcode := strip_error_code ha
          simp only [hnodes.length_eq, (hnodes.map Node.key).nodup_iff] at hcode
          unfold Identity.canonicalIdentityJson
          rw [ha, hb]
          exact hcode.trans (strip_error_code hb).symm
  | ok g =>
      have haccepted := hiff.mp (Identity.strip_ok_iff.mp ⟨g, ha⟩)
      rcases Identity.strip_ok_iff.mpr haccepted with ⟨g', hb⟩
      rcases Identity.canonicalIdentityJson_isLeast hdump ha hcapa with
        ⟨cert, hcert, hleast⟩
      rcases Identity.canonicalIdentityJson_isLeast hdump hb hcapb with
        ⟨cert', hcert', hleast'⟩
      have heq := Identity.isLeast_unique_of_isomorphic hdump ha hb
        (isomorphic_of_perm hnodes hedges haccepted) hleast hleast'
      rw [hcert, hcert', heq]
      rfl

end Models

/-!
## Building from permuted facts
-/

/--
Where a machine's facts build, permuted facts build too, with the same golden
file and, below the cap on leaves, the same identity or the same error code.
-/
theorem build_permuted {dump : Json -> String} (hdump : Function.Injective dump)
    (sha256Hex : String -> String) (dumpIndented : Json -> String) {facts facts' : Facts}
    (h : Permuted facts facts') (hkeys : (facts.pci.map PciFacts.key).Nodup)
    (hgpus : (gpuIds facts).Nodup) (hnics : (nicIds facts).Nodup) {model : Model}
    (hmodel : build facts = .ok model) :
    exists model', build facts' = .ok model' ∧
      canonicalDump dumpIndented model' = canonicalDump dumpIndented model ∧
      (Identity.canonicalIdentityJson dump model ≠ .error Identity.leafCap ->
        Identity.canonicalIdentityJson dump model' ≠ .error Identity.leafCap ->
        SameOutcome (Identity.topo1 dump sha256Hex model)
          (Identity.topo1 dump sha256Hex model')) := by
  rcases build_eq_ok.mp hmodel with ⟨t, rfl⟩
  rw [t.gpuIds_eq] at hgpus
  rw [t.nicIds_eq] at hnics
  rcases exists_tracePermuted h hkeys t hgpus with ⟨t', ht⟩
  rcases ht.sorted_eq h hkeys hgpus hnics with ⟨hnodes, hedges⟩
  have hpermNodes : t.model.nodes.Perm t'.model.nodes :=
    ((Sorting.stableSort_perm Node.key _).symm.trans (hnodes ▸ List.Perm.refl _)).trans
      (Sorting.stableSort_perm Node.key _)
  have hpermEdges : t.model.edges.Perm t'.model.edges :=
    ((Sorting.stableSort_perm edgeSortKey _).symm.trans (hedges ▸ List.Perm.refl _)).trans
      (Sorting.stableSort_perm edgeSortKey _)
  refine ⟨t'.model, build_eq_ok.mpr ⟨t', rfl⟩, ?_, ?_⟩
  · unfold canonicalDump toJson
    rw [hnodes, hedges]
  · intro hcap hcap'
    exact topo1_sameOutcome hpermNodes hpermEdges hdump sha256Hex hcap hcap'

/-- The machine with its facts listed the other way round. -/
def pairFactsReversed : Facts :=
  { pairFacts with
    pci := pairFacts.pci.reverse
    nvml := .obj
      [("gpus", .arr [pairGpu "0000:02:00.0" "0000:01:00.0" 1,
        pairGpu "0000:01:00.0" "0000:02:00.0" 0]),
       ("p2p", .arr []), ("schema", .int 1)] }

theorem pairFacts_permuted : Permuted pairFacts pairFactsReversed := by
  constructor
  · rfl
  · exact List.Perm.refl _
  · exact ⟨pairFacts.pci, List.forall₂_same.mpr (fun p _ => ⟨rfl, List.Perm.refl _⟩),
      (List.reverse_perm _).symm⟩
  · refine List.Forall₂.cons ⟨rfl, ?_⟩ (List.forall₂_same.mpr ?_)
    · exact ⟨_, List.forall₂_same.mpr (fun g _ => GpuReordered.refl g), List.Perm.swap _ _ _⟩
    · intro e he
      simp only [List.mem_cons, List.not_mem_nil, or_false] at he
      rcases he with rfl | rfl
      · exact ⟨rfl, rfl⟩
      · exact ⟨rfl, rfl⟩
  · exact MembersRelated.refl (OnlyMembers.refl (ArrayReordered.refl (fun _ => rfl))) _

theorem build_pairFactsReversed :
    exists model model', build pairFacts = .ok model ∧
      build pairFactsReversed = .ok model' ∧
      canonicalDump Compact.dump model' = canonicalDump Compact.dump model := by
  rcases pairFacts_consistent.closed pairFacts_keys pairFacts_validated.documents
    pairFacts_parents with ⟨model, hmodel, _⟩
  rcases build_permuted Compact.dump_injective (fun s => s) Compact.dump pairFacts_permuted
    pairFacts_keys (by decide) (by decide) hmodel with
    ⟨model', hmodel', hdump, _⟩
  exact ⟨model, model', hmodel, hmodel', hdump⟩

/-- One GPU that is local to NUMA nodes which the machine does not list. -/
def strayFacts (numa : List Int) : Facts :=
  { packages := 1
    numaNodes := []
    pci := [⟨"0000:01:00.0", "", false, 4318, 9008, 5, 16, numa⟩]
    nvml := .obj
      [("gpus", .arr [.obj [("bus_id", .str "0000:01:00.0"), ("cc_major", .int 9),
        ("cc_minor", .int 0), ("cuda_ordinal", .int 0), ("memory_bytes", .int 80),
        ("name", .str "H100"), ("nvlinks", .str "not_supported")]]),
       ("p2p", .arr []), ("schema", .int 1)]
    nics := .obj
      [("nics", .arr []), ("rdma", .arr []), ("rdma_probe", .str "ok"), ("schema", .int 1)] }

theorem strayFacts_permuted : Permuted (strayFacts [0, 1]) (strayFacts [1, 0]) := by
  constructor
  · rfl
  · exact List.Perm.refl _
  · exact ⟨_, List.Forall₂.cons ⟨rfl, List.Perm.swap 1 0 []⟩ List.Forall₂.nil,
      List.Perm.refl _⟩
  · exact MembersRelated.refl (OnlyMembers.refl (ArrayReordered.refl GpuReordered.refl)) _
  · exact MembersRelated.refl (OnlyMembers.refl (ArrayReordered.refl (fun _ => rfl))) _

/-- Whether the facts build and their identity is refused with the error. -/
def refusedWith (facts : Facts) (e : TopologyError) : Bool :=
  match build facts with
  | .ok model =>
      match Identity.topo1 Compact.dump (fun s => s) model with
      | .error e' => e' = e
      | .ok _ => false
  | .error _ => false

theorem exists_of_refusedWith {facts : Facts} {e : TopologyError}
    (h : refusedWith facts e = true) :
    exists model, build facts = .ok model ∧
      Identity.topo1 Compact.dump (fun s => s) model = .error e := by
  unfold refusedWith at h
  split at h
  · rename_i model hmodel
    split at h
    · rename_i e' he'
      rw [of_decide_eq_true h] at he'
      exact ⟨model, hmodel, he'⟩
    · cases h
  · cases h

/-- The identity of stray facts is refused with a dangling reference, named in input order. -/
theorem topo1_strayFacts :
    Permuted (strayFacts [0, 1]) (strayFacts [1, 0]) ∧
      ((strayFacts [0, 1]).pci.map PciFacts.key).Nodup ∧
      (strayFacts [0, 1]).numaNodes.Nodup ∧ (leafIds (strayFacts [0, 1])).Nodup ∧
      exists model model' e e', build (strayFacts [0, 1]) = .ok model ∧
        build (strayFacts [1, 0]) = .ok model' ∧
        Identity.topo1 Compact.dump (fun s => s) model = .error e ∧
        Identity.topo1 Compact.dump (fun s => s) model' = .error e' ∧
        e ≠ e' ∧ e.code = "dangling_reference" ∧ e'.code = "dangling_reference" := by
  have h : refusedWith (strayFacts [0, 1]) ⟨"dangling_reference", "",
      "edge 0000:01:00.0 -> numa-0 names an unknown node"⟩ = true := by decide
  have h' : refusedWith (strayFacts [1, 0]) ⟨"dangling_reference", "",
      "edge 0000:01:00.0 -> numa-1 names an unknown node"⟩ = true := by decide
  rcases exists_of_refusedWith h with ⟨model, hmodel, he⟩
  rcases exists_of_refusedWith h' with ⟨model', hmodel', he'⟩
  exact ⟨strayFacts_permuted, by decide, by decide, by decide, model, model', _, _,
    hmodel, hmodel', he, he', by decide, rfl, rfl⟩

end Builder
end Topology
end Ostia

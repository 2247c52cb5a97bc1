import Mathlib.Logic.Relation
import Ostia.Topology.BuilderSafety

/-!
# The built model is closed

When the bus IDs, the PCI tree, the NUMA indices and the NVLinks of a machine
fit together, the model has one node for each key and no edge to an unknown
node, so only its size can keep it from being identified.
-/

namespace Ostia
namespace Topology

open Foundation
open Schema (Env Accepts)

namespace Builder

/-!
## The identifiers in the documents
-/

def busIdOf (j : Json) : Option String :=
  match j.get? "bus_id" with
  | some (.str s) => some s
  | _ => none

def idsOf (entries : List Json) : List String := entries.filterMap busIdOf

def gpuDocs (facts : Facts) : List Json :=
  if facts.nvml.isObject then ((facts.nvml.get? "gpus").map elements).getD [] else []

def nicDocs (facts : Facts) : List Json :=
  ((facts.nics.get? "nics").map elements).getD []

def gpuIds (facts : Facts) : List String := idsOf (gpuDocs facts)

def nicIds (facts : Facts) : List String := idsOf (nicDocs facts)

/-- The bus IDs of the GPUs and the NICs. -/
def leafIds (facts : Facts) : List String := gpuIds facts ++ nicIds facts

/-- The reports of all GPUs with an array of NVLinks. -/
def rowsOf (gpus : List Json) : List (String × List LinkReport) :=
  gpus.filterMap fun g =>
    match busIdOf g, linksOf g with
    | some id, some ls => some (id, ls.map reportOf)
    | _, _ => none

theorem busIdOf_eq {j : Json} {id : String} (h : j.get? "bus_id" = some (Json.str id)) :
    busIdOf j = some id := by
  unfold busIdOf
  rw [h]

theorem gpuNodes_ok {pci : OrdMap String PciFacts} {gpus : List Json}
    (hdocs : forall g, g ∈ gpus -> GpuDoc g)
    (hdevices : forall id, id ∈ idsOf gpus -> exists p, pci.find? id = some p ∧
      p.bridge = false) :
    exists nodes, gpus.mapM (gpuNode pci) = .ok nodes ∧
      nodes.map Node.key = idsOf gpus := by
  induction gpus with
  | nil => exact ⟨[], rfl, rfl⟩
  | cons g rest ih =>
      rcases gpuNode_eq (hdocs g List.mem_cons_self) with ⟨id, attrs, hid, heq⟩
      have hids : idsOf (g :: rest) = id :: idsOf rest := by
        unfold idsOf
        rw [List.filterMap_cons, busIdOf_eq hid]
      rw [hids] at hdevices ⊢
      rcases hdevices id List.mem_cons_self with ⟨p, hp, hbridge⟩
      rcases ih (fun g' hg' => hdocs g' (List.mem_cons_of_mem g hg'))
        (fun id' hid' => hdevices id' (List.mem_cons_of_mem id hid')) with
        ⟨nodes, hnodes, hkeys⟩
      refine ⟨⟨NodeKind.gpu, id, attrs⟩ :: nodes, ?_, by rw [List.map_cons, hkeys]⟩
      rw [List.mapM_cons, heq, findDevice_eq_ok.mpr ⟨hp, hbridge⟩, hnodes]
      rfl

theorem nicNodes_ok {pci : OrdMap String PciFacts} {nics : Json} (rdma : StringSet)
    {probe : String} (hprobe : nics.get? "rdma_probe" = some (Json.str probe))
    {entries : List Json} (hdocs : forall n, n ∈ entries -> NicDoc n)
    (hdevices : forall id, id ∈ idsOf entries -> exists p, pci.find? id = some p ∧
      p.bridge = false) :
    exists nodes, entries.mapM (nicNode pci nics rdma) = .ok nodes ∧
      nodes.map Node.key = idsOf entries := by
  induction entries with
  | nil => exact ⟨[], rfl, rfl⟩
  | cons n rest ih =>
      rcases nicNode_eq rdma (hdocs n List.mem_cons_self) hprobe with
        ⟨id, hid, attrs, heq⟩
      have hids : idsOf (n :: rest) = id :: idsOf rest := by
        unfold idsOf
        rw [List.filterMap_cons, busIdOf_eq hid]
      rw [hids] at hdevices ⊢
      rcases hdevices id List.mem_cons_self with ⟨p, hp, hbridge⟩
      rcases ih (fun n' hn' => hdocs n' (List.mem_cons_of_mem n hn'))
        (fun id' hid' => hdevices id' (List.mem_cons_of_mem id hid')) with
        ⟨nodes, hnodes, hkeys⟩
      refine ⟨⟨NodeKind.nic, id, attrs p⟩ :: nodes, ?_, by rw [List.map_cons, hkeys]⟩
      rw [List.mapM_cons, heq, findDevice_eq_ok.mpr ⟨hp, hbridge⟩, hnodes]
      rfl

/-- Every active link to a GPU names one of the keys. -/
def RemotesIn (keys : List String) (gpus : List Json) : Prop :=
  forall g, g ∈ gpus -> forall ls, linksOf g = some ls -> forall l, l ∈ ls ->
    forall remote, reportOf l = .toGpu remote -> remote ∈ keys

theorem checkReport_ok {keys : List String} {self : String} {ls : List Json}
    (h : forall l, l ∈ ls -> forall remote, reportOf l = .toGpu remote -> remote ∈ keys) :
    ls.mapM (fun l => checkReport (setOf keys) self (reportOf l)) =
      .ok (ls.map reportOf) := by
  rw [Fallible.mapM_eq_ok]
  induction ls with
  | nil => exact List.Forall₂.nil
  | cons l rest ih =>
      refine List.Forall₂.cons ?_ (ih fun l' hl' => h l' (List.mem_cons_of_mem l hl'))
      cases hreport : reportOf l with
      | toGpu remote =>
          simp only [checkReport]
          rw [if_pos (setOf_contains.mpr (h l List.mem_cons_self remote hreport))]
      | _ => rfl

theorem linkTables_ok {keys : List String} {gpus : List Json}
    (hdocs : forall g, g ∈ gpus -> GpuDoc g) (hremotes : RemotesIn keys gpus) :
    linkTables (setOf keys) gpus =
      .ok ((rowsOf gpus).foldl addReports ⟨OrdMap.empty, OrdMap.empty, OrdMap.empty⟩) := by
  have hrows : exists rows, gpus.mapM (gpuReports (setOf keys)) = .ok rows ∧
      rows.filterMap id = rowsOf gpus := by
    induction gpus with
    | nil => exact ⟨[], rfl, rfl⟩
    | cons g rest ih =>
        rcases ih (fun g' hg' => hdocs g' (List.mem_cons_of_mem g hg'))
          (fun g' hg' => hremotes g' (List.mem_cons_of_mem g hg')) with
          ⟨rows, hrows, hfilter⟩
        have hdoc := hdocs g List.mem_cons_self
        rcases hdoc.busId with ⟨id', hid⟩
        have hread := gpuReports_eq hdoc (setOf keys) hid
        unfold rowsOf
        rw [List.filterMap_cons, busIdOf_eq hid]
        cases hlinks : linksOf g with
        | none =>
            rw [hlinks] at hread
            refine ⟨none :: rows, ?_, hfilter⟩
            rw [List.mapM_cons, hread, hrows]
            rfl
        | some ls =>
            rw [hlinks] at hread
            simp only at hread
            rw [checkReport_ok (hremotes g List.mem_cons_self ls hlinks)] at hread
            refine ⟨some (id', ls.map reportOf) :: rows, ?_, ?_⟩
            · rw [List.mapM_cons, hread, hrows]
              rfl
            · rw [List.filterMap_cons]
              exact congrArg (List.cons (id', ls.map reportOf)) hfilter
  rcases hrows with ⟨rows, hrows, hfilter⟩
  unfold linkTables
  rw [hrows, ← hfilter]
  rfl

theorem rowsOf_sublist (gpus : List Json) :
    ((rowsOf gpus).map Prod.fst).Sublist (idsOf gpus) := by
  unfold rowsOf idsOf
  induction gpus with
  | nil => exact List.nil_sublist _
  | cons g rest ih =>
      rw [List.filterMap_cons, List.filterMap_cons]
      cases busIdOf g with
      | none => exact ih
      | some id =>
          cases linksOf g with
          | none => exact ih.cons id
          | some ls => exact ih.cons_cons id

/-!
## The ends of NVLinks
-/

/-- The tables name only the given keys. -/
structure TablesWithin (keys : List String) (tables : LinkTables) : Prop where
  pairs : forall pair, pair ∈ tables.pairs.keys ->
    (ofLex pair).1 ∈ keys ∧ (ofLex pair).2 ∈ keys
  toSwitch : forall k, k ∈ tables.toSwitch.keys -> k ∈ keys
  peers : forall k peers, tables.reported.find? k = some peers ->
    forall remote, remote ∈ peers.keys -> remote ∈ keys

theorem countReport_within {keys : List String} {self : String} (hself : self ∈ keys)
    (counts : OrdMap String Int × OrdMap String Int)
    (hpeers : forall k, k ∈ counts.1.keys -> k ∈ keys)
    (hswitch : forall k, k ∈ counts.2.keys -> k ∈ keys)
    {reports : List LinkReport}
    (hreports : forall remote, LinkReport.toGpu remote ∈ reports -> remote ∈ keys) :
    (forall k, k ∈ (reports.foldl (countReport self) counts).1.keys -> k ∈ keys) ∧
      forall k, k ∈ (reports.foldl (countReport self) counts).2.keys -> k ∈ keys := by
  induction reports generalizing counts with
  | nil => exact ⟨hpeers, hswitch⟩
  | cons r rest ih =>
      rw [List.foldl_cons]
      apply ih (countReport self counts r)
      · cases r with
        | unused => exact hpeers
        | toSwitch => exact hpeers
        | toGpu remote =>
            intro k hk
            simp only [countReport, increment] at hk
            rcases OrdMap.mem_keys_insert.mp hk with hk | hk
            · rw [hk]
              exact hreports remote List.mem_cons_self
            · exact hpeers k hk
      · cases r with
        | unused => exact hswitch
        | toSwitch =>
            intro k hk
            simp only [countReport, increment] at hk
            rcases OrdMap.mem_keys_insert.mp hk with hk | hk
            · rw [hk]
              exact hself
            · exact hswitch k hk
        | toGpu remote => exact hswitch
      · intro remote hremote
        exact hreports remote (List.mem_cons_of_mem r hremote)

theorem foldl_pairs_within {keys : List String} {self : String} (hself : self ∈ keys)
    {remotes : List String} (hremotes : forall r, r ∈ remotes -> r ∈ keys)
    {pairs : OrdMap (String ×ₗ String) Unit}
    (hpairs : forall pair, pair ∈ pairs.keys ->
      (ofLex pair).1 ∈ keys ∧ (ofLex pair).2 ∈ keys) :
    forall pair, pair ∈ (remotes.foldl
      (fun pairs remote => pairs.insert (orderedPair self remote) ()) pairs).keys ->
      (ofLex pair).1 ∈ keys ∧ (ofLex pair).2 ∈ keys := by
  induction remotes generalizing pairs with
  | nil => exact hpairs
  | cons r rest ih =>
      rw [List.foldl_cons]
      apply ih
      · intro r' hr'
        exact hremotes r' (List.mem_cons_of_mem r hr')
      · intro pair hpair
        rcases OrdMap.mem_keys_insert.mp hpair with hpair | hpair
        · have hr := hremotes r List.mem_cons_self
          rw [hpair]
          unfold orderedPair
          split_ifs
          · exact ⟨hr, hself⟩
          · exact ⟨hself, hr⟩
        · exact hpairs pair hpair

theorem addReports_within {keys : List String} {tables : LinkTables}
    (h : TablesWithin keys tables) {row : String × List LinkReport}
    (hself : row.1 ∈ keys)
    (hreports : forall remote, LinkReport.toGpu remote ∈ row.2 -> remote ∈ keys) :
    TablesWithin keys (addReports tables row) := by
  have hstart : forall k,
      k ∈ ((tables.reported.find? row.1).getD OrdMap.empty).keys -> k ∈ keys := by
    intro k hk
    cases hfind : tables.reported.find? row.1 with
    | none =>
        rw [hfind] at hk
        cases hk
    | some peers =>
        rw [hfind] at hk
        exact h.peers row.1 peers hfind k hk
  rcases countReport_within hself
    ((tables.reported.find? row.1).getD OrdMap.empty, tables.toSwitch) hstart
    h.toSwitch hreports with ⟨hpeers, hswitch⟩
  constructor
  · exact foldl_pairs_within hself hpeers h.pairs
  · exact hswitch
  · intro k peers hfind remote hremote
    unfold addReports at hfind
    dsimp only at hfind
    rw [OrdMap.find?_insert] at hfind
    split_ifs at hfind with hk
    · rw [Option.some_inj] at hfind
      rw [← hfind] at hremote
      exact hpeers remote hremote
    · exact h.peers k peers hfind remote hremote

theorem tables_within {keys : List String} {rows : List (String × List LinkReport)}
    (hself : forall row, row ∈ rows -> row.1 ∈ keys)
    (hreports : forall row, row ∈ rows -> forall remote,
      LinkReport.toGpu remote ∈ row.2 -> remote ∈ keys) {tables : LinkTables}
    (h : TablesWithin keys tables) : TablesWithin keys (rows.foldl addReports tables) := by
  induction rows generalizing tables with
  | nil => exact h
  | cons row rest ih =>
      rw [List.foldl_cons]
      apply ih
      · intro row' hrow'
        exact hself row' (List.mem_cons_of_mem row hrow')
      · intro row' hrow'
        exact hreports row' (List.mem_cons_of_mem row hrow')
      · exact addReports_within h (hself row List.mem_cons_self)
          (hreports row List.mem_cons_self)

theorem rowsOf_within {keys : List String} {gpus : List Json}
    (hids : forall id, id ∈ idsOf gpus -> id ∈ keys) (hremotes : RemotesIn keys gpus) :
    TablesWithin keys
      ((rowsOf gpus).foldl addReports ⟨OrdMap.empty, OrdMap.empty, OrdMap.empty⟩) := by
  have hrow : forall row, row ∈ rowsOf gpus -> row.1 ∈ keys ∧
      forall remote, LinkReport.toGpu remote ∈ row.2 -> remote ∈ keys := by
    intro row hrow
    unfold rowsOf at hrow
    rcases List.mem_filterMap.mp hrow with ⟨g, hg, heq⟩
    cases hid : busIdOf g with
    | none =>
        rw [hid] at heq
        cases heq
    | some id =>
        cases hlinks : linksOf g with
        | none =>
            rw [hid, hlinks] at heq
            cases heq
        | some ls =>
            rw [hid, hlinks] at heq
            injection heq with heq
            rw [← heq]
            refine ⟨hids id (List.mem_filterMap.mpr ⟨g, hg, hid⟩), ?_⟩
            intro remote hremote
            rcases List.mem_map.mp hremote with ⟨l, hl, hreport⟩
            exact hremotes g hg ls hlinks l hl remote hreport
  apply tables_within (fun row h => (hrow row h).1) (fun row h => (hrow row h).2)
  constructor
  · intro pair hpair
    cases hpair
  · intro k hk
    cases hk
  · intro k peers hfind
    cases hfind

/-!
## The kept part of the PCI tree
-/

/-- The parent of a kept key is kept, unless there is none. -/
def ParentIn (pci : OrdMap String PciFacts) (kept : StringSet) (k : String) : Prop :=
  forall p, pci.find? k = some p -> p.parentKey = "" ∨ kept.contains p.parentKey = true

def ParentOf (pci : OrdMap String PciFacts) (k k' : String) : Prop :=
  exists p, pci.find? k = some p ∧ p.parentKey = k' ∧ k' ≠ ""

/-- The PCI keys that are not kept yet. -/
def missing (pci : OrdMap String PciFacts) (kept : StringSet) : List String :=
  pci.keys.filter fun k => !kept.contains k

theorem missing_insert_lt (pci : OrdMap String PciFacts) (kept : StringSet) {k : String}
    (hk : (pci.find? k).isSome) (hnew : kept.contains k = false) :
    (missing pci (kept.insert k ())).length < (missing pci kept).length := by
  have hsub : (missing pci (kept.insert k ())).Sublist (missing pci kept) := by
    apply List.monotone_filter_right
    intro x hx
    rw [Bool.not_eq_true'] at hx ⊢
    by_contra hkept
    rw [Bool.not_eq_false] at hkept
    rw [OrdMap.contains_insert.mpr (Or.inr hkept)] at hx
    cases hx
  have hmem : k ∈ missing pci kept :=
    List.mem_filter.mpr ⟨OrdMap.mem_keys.mpr hk, by rw [hnew]; rfl⟩
  have hnot : k ∉ missing pci (kept.insert k ()) := by
    intro h
    have hfalse := (List.mem_filter.mp h).2
    rw [OrdMap.contains_insert.mpr (Or.inl rfl)] at hfalse
    cases hfalse
  refine Nat.lt_of_le_of_ne hsub.length_le ?_
  intro hlen
  rw [hsub.eq_of_length hlen] at hnot
  exact hnot hmem

/-- What a walk up the tree keeps; the fuel exceeds the keys that it can add. -/
theorem keepAncestors_spec {pci : OrdMap String PciFacts} {P : String -> Prop}
    (hP : forall k k', P k -> ParentOf pci k k' -> P k') :
    forall fuel k (kept kept' : StringSet), (missing pci kept).length < fuel ->
      (k ≠ "" -> P k) -> keepAncestors pci fuel k kept = .ok kept' ->
      (forall x, kept.contains x = true -> kept'.contains x = true) ∧
        (forall x, kept'.contains x = true ->
          kept.contains x = true ∨ (P x ∧ ParentIn pci kept' x)) ∧
        (k = "" ∨ kept'.contains k = true) := by
  intro fuel
  induction fuel with
  | zero =>
      intro k kept kept' hfuel
      exact absurd hfuel (Nat.not_lt_zero _)
  | succ fuel ih =>
      intro k kept kept' hfuel hk h
      rw [keepAncestors] at h
      split_ifs at h with hempty hkept
      · injection h with h
        subst h
        exact ⟨fun _ hx => hx, fun _ hx => Or.inl hx, Or.inl hempty⟩
      · injection h with h
        subst h
        exact ⟨fun _ hx => hx, fun _ hx => Or.inl hx, Or.inr hkept⟩
      · cases hfind : pci.find? k with
        | none =>
            rw [hfind] at h
            cases h
        | some p =>
            rw [hfind] at h
            have hlt := missing_insert_lt pci kept (k := k)
              (by rw [hfind]; rfl) (by simpa using hkept)
            have hparent : p.parentKey ≠ "" -> P p.parentKey := by
              intro hne
              exact hP k p.parentKey (hk hempty) ⟨p, hfind, rfl, hne⟩
            rcases ih p.parentKey (kept.insert k ()) kept' (by omega) hparent h with
              ⟨hmono, hnew, hreached⟩
            refine ⟨?_, ?_, Or.inr (hmono k (OrdMap.contains_insert.mpr (Or.inl rfl)))⟩
            · intro x hx
              exact hmono x (OrdMap.contains_insert.mpr (Or.inr hx))
            · intro x hx
              rcases hnew x hx with hold | hnew
              · rcases OrdMap.contains_insert.mp hold with hxk | hold
                · right
                  rw [hxk]
                  refine ⟨hk hempty, ?_⟩
                  intro q hq
                  rw [hfind, Option.some_inj] at hq
                  rw [← hq]
                  exact hreached
                · exact Or.inl hold
              · exact Or.inr hnew

theorem missing_length_le (pci : OrdMap String PciFacts) (kept : StringSet) :
    (missing pci kept).length ≤ pci.entries.length := by
  unfold missing OrdMap.keys
  exact (List.length_filter_le _ _).trans (by rw [List.length_map])

/-- The fuel of a walk is never used up. -/
theorem keepAncestors_fuel {pci : OrdMap String PciFacts} :
    forall fuel extra k (kept : StringSet), (missing pci kept).length < fuel ->
      keepAncestors pci (fuel + extra) k kept = keepAncestors pci fuel k kept := by
  intro fuel
  induction fuel with
  | zero =>
      intro extra k kept hfuel
      exact absurd hfuel (Nat.not_lt_zero _)
  | succ fuel ih =>
      intro extra k kept hfuel
      rw [Nat.add_right_comm, keepAncestors, keepAncestors]
      split_ifs with hempty hkept
      · rfl
      · rfl
      · cases hfind : pci.find? k with
        | none => rfl
        | some p =>
            have hlt := missing_insert_lt pci kept (k := k)
              (by rw [hfind]; rfl) (by simpa using hkept)
            exact ih extra p.parentKey _ (by omega)

theorem keepLeaf_spec {pci : OrdMap String PciFacts} {P : String -> Prop}
    (hP : forall k k', P k -> ParentOf pci k k' -> P k') {leaf : String} (hleaf : P leaf)
    {kept kept' : StringSet} (h : keepLeaf pci kept leaf = .ok kept') :
    (forall x, kept.contains x = true -> kept'.contains x = true) ∧
      (forall x, kept'.contains x = true ->
        kept.contains x = true ∨ (P x ∧ ParentIn pci kept' x)) ∧
      ParentIn pci kept' leaf := by
  unfold keepLeaf at h
  cases hfind : pci.find? leaf with
  | none =>
      rw [hfind] at h
      cases h
  | some p =>
      rw [hfind] at h
      have hparent : p.parentKey ≠ "" -> P p.parentKey := by
        intro hne
        exact hP leaf p.parentKey hleaf ⟨p, hfind, rfl, hne⟩
      rcases keepAncestors_spec hP _ _ _ _
        (Nat.lt_succ_of_le (missing_length_le pci kept)) hparent h with
        ⟨hmono, hnew, hreached⟩
      refine ⟨hmono, hnew, ?_⟩
      intro q hq
      rw [hfind, Option.some_inj] at hq
      rw [← hq]
      exact hreached

theorem ParentIn.mono {pci : OrdMap String PciFacts} {kept kept' : StringSet}
    (h : forall x, kept.contains x = true -> kept'.contains x = true) {k : String}
    (hk : ParentIn pci kept k) : ParentIn pci kept' k := by
  intro p hp
  exact (hk p hp).imp_right (h p.parentKey)

/-- The kept keys are leaves and ancestors of leaves, and closed under parents. -/
theorem keepBridges_spec {pci : OrdMap String PciFacts} {P : String -> Prop}
    (hP : forall k k', P k -> ParentOf pci k k' -> P k') {leaves kept : StringSet}
    (hleaves : forall l, leaves.contains l = true -> P l)
    (h : keepBridges pci leaves = .ok kept) :
    (forall x, leaves.contains x = true -> kept.contains x = true) ∧
      forall x, kept.contains x = true -> P x ∧ ParentIn pci kept x := by
  -- Before the walks from the remaining leaves, only these may lack their parents.
  have hfold : forall (rest : List String) (kept kept' : StringSet),
      (forall l, l ∈ rest -> P l) ->
      (forall x, kept.contains x = true -> P x ∧ (ParentIn pci kept x ∨ x ∈ rest)) ->
      rest.foldlM (keepLeaf pci) kept = .ok kept' ->
      (forall x, kept.contains x = true -> kept'.contains x = true) ∧
        forall x, kept'.contains x = true -> P x ∧ ParentIn pci kept' x := by
    intro rest
    induction rest with
    | nil =>
        intro kept kept' _ hkept h
        injection h with h
        subst h
        refine ⟨fun _ hx => hx, ?_⟩
        intro x hx
        rcases hkept x hx with ⟨hPx, hparent | hmem⟩
        · exact ⟨hPx, hparent⟩
        · cases hmem
    | cons leaf rest ih =>
        intro kept kept' hrest hkept h
        rw [List.foldlM_cons, Fallible.bind_eq_ok] at h
        rcases h with ⟨next, hnext, h⟩
        rcases keepLeaf_spec hP (hrest leaf List.mem_cons_self) hnext with
          ⟨hmono, hnew, hleaf⟩
        have hkept' : forall x, next.contains x = true ->
            P x ∧ (ParentIn pci next x ∨ x ∈ rest) := by
          intro x hx
          rcases hnew x hx with hold | ⟨hPx, hparent⟩
          · rcases hkept x hold with ⟨hPx, hparent | hmem⟩
            · exact ⟨hPx, Or.inl (hparent.mono hmono)⟩
            · rcases List.mem_cons.mp hmem with heq | hmem
              · rw [heq]
                exact ⟨hrest leaf List.mem_cons_self, Or.inl hleaf⟩
              · exact ⟨hPx, Or.inr hmem⟩
          · exact ⟨hPx, Or.inl hparent⟩
        rcases ih next kept' (fun l hl => hrest l (List.mem_cons_of_mem leaf hl)) hkept' h
          with ⟨hmono', hall⟩
        exact ⟨fun x hx => hmono' x (hmono x hx), hall⟩
  unfold keepBridges at h
  apply hfold leaves.keys leaves kept _ _ h
  · intro l hl
    exact hleaves l (OrdMap.mem_keys.mp hl)
  · intro x hx
    exact ⟨hleaves x hx, Or.inr (OrdMap.mem_keys.mpr hx)⟩

/-!
## Keys
-/

theorem toString_int_injective {a b : Int} (h : toString a = toString b) : a = b := by
  have htext : forall n : Int, (toString n).toList = Layout.number n := by
    intro n
    rw [Int.toString_eq_repr]
    cases n with
    | ofNat k =>
        show k.repr.toList = _
        rw [Nat.toList_repr]
        rfl
    | negSucc k =>
        show ("-" ++ (Nat.succ k).repr).toList = _
        rw [String.toList_append, Nat.toList_repr]
        rfl
  apply Layout.number_injective
  rw [← htext, ← htext, h]

theorem packageKey_injective : Function.Injective packageKey := by
  intro a b h
  unfold packageKey at h
  have htext := congrArg String.toList h
  rw [String.toList_append, String.toList_append] at htext
  have hnat : toString a = toString b :=
    String.toList_injective (List.append_cancel_left htext)
  rw [Nat.toString_eq_repr, Nat.toString_eq_repr] at hnat
  apply Layout.toDigits_injective
  rw [← Nat.toList_repr, ← Nat.toList_repr, hnat]

theorem numaKey_injective : Function.Injective numaKey := by
  intro a b h
  unfold numaKey at h
  have htext := congrArg String.toList h
  rw [String.toList_append, String.toList_append] at htext
  exact toString_int_injective (String.toList_injective (List.append_cancel_left htext))

/-- Keys of different groups start with different letters. -/
theorem key_groups (i : Nat) (n : Int) :
    packageKey i ≠ numaKey n ∧ packageKey i ≠ kSwitchGroup ∧ numaKey n ≠ kSwitchGroup := by
  refine ⟨?_, ?_, ?_⟩
  · intro h
    have htext := congrArg (fun s => s.toList.head?) h
    simp [packageKey, numaKey, String.toList_append] at htext
  · intro h
    have htext := congrArg (fun s => s.toList.head?) h
    simp [packageKey, kSwitchGroup, String.toList_append] at htext
  · intro h
    have htext := congrArg (fun s => s.toList.head?) h
    simp [numaKey, kSwitchGroup, String.toList_append] at htext

end Builder
end Topology
end Ostia

import Ostia.Topology.BuilderLinks
import Ostia.Topology.BuilderTree

/-!
# The NVLinks of a model

Two GPUs are joined by one edge when the weaker of their sides reports an active link to the
other, and the edge carries the count of that side.  A side without an array of NVLinks says
nothing and is skipped.  Each GPU with active links to switches has one edge to the one switch
group of the machine.
-/

namespace Ostia
namespace Topology

open Foundation
open Schema (Env)

namespace Builder

/-!
## What the GPUs report
-/

def gpuOf (facts : Facts) (id : String) : Option Json :=
  (gpuDocs facts).find? fun g => busIdOf g = some id

/-- The active links that one side reports to the other, nothing without an array. -/
def sideLinks (facts : Facts) (a b : String) : Option Nat := do
  let g ← gpuOf facts a
  let ls ← linksOf g
  pure (ls.countP fun l => reportOf l = .toGpu b)

/-- The active links that a GPU reports to switches. -/
def switchLinks (facts : Facts) (a : String) : Nat :=
  (((gpuOf facts a).bind linksOf).getD []).countP fun l => reportOf l = .toSwitch

/-- The smallest count among the sides that report. -/
def weaker (facts : Facts) (a b : String) : Option Nat :=
  [sideLinks facts a b, sideLinks facts b a].reduceOption.min?

/-- Some active link to a GPU names no GPU of the document. -/
def Dangling (facts : Facts) : Prop :=
  exists g, g ∈ gpuDocs facts ∧ exists ls, linksOf g = some ls ∧ exists l, l ∈ ls ∧
    exists remote, reportOf l = .toGpu remote ∧ remote ∉ gpuIds facts

def linksAttr (n : Nat) : OrdMap String Int := OrdMap.empty.insert "links" (n : Int)

/-- The NVLink edges of two ends, in either direction. -/
def between (edges : List Edge) (a b : String) : List Edge :=
  (edgesOf .nvlink edges).filter fun e =>
    (e.fromKey = a ∧ e.toKey = b) ∨ (e.fromKey = b ∧ e.toKey = a)

theorem idsOf_cons (g : Json) (rest : List Json) :
    idsOf (g :: rest) = (busIdOf g).toList ++ idsOf rest := by
  unfold idsOf
  rw [List.filterMap_cons]
  cases busIdOf g with
  | none => rfl
  | some id => rfl

theorem rowsOf_cons (g : Json) (rest : List Json) :
    rowsOf (g :: rest) =
      ((busIdOf g).bind fun id => (linksOf g).map fun ls => (id, ls.map reportOf)).toList ++
        rowsOf rest := by
  unfold rowsOf
  rw [List.filterMap_cons]
  cases busIdOf g with
  | none => rfl
  | some id =>
      cases linksOf g with
      | none => rfl
      | some ls => rfl

theorem lookup_rowsOf {gpus : List Json} (hids : (idsOf gpus).Nodup) (a : String) :
    OrdMap.lookup a (rowsOf gpus) =
      ((gpus.find? fun g => busIdOf g = some a).bind linksOf).map fun ls => ls.map reportOf := by
  induction gpus with
  | nil => rfl
  | cons g rest ih =>
      rw [idsOf_cons] at hids
      have ih := ih (List.nodup_append.mp hids).2.1
      rw [rowsOf_cons, List.find?_cons]
      cases hid : busIdOf g with
      | none => simpa [hid] using ih
      | some id =>
          rw [hid] at hids
          by_cases ha : id = a
          · -- The identifiers are distinct, so no later record is of this GPU.
            have hnone : OrdMap.lookup a (rowsOf rest) = none := by
              apply OrdMap.lookup_eq_none
              intro e he heq
              have hmem : a ∈ idsOf rest :=
                (rowsOf_sublist rest).subset (heq ▸ List.mem_map_of_mem he)
              rw [← ha] at hmem
              exact (List.nodup_cons.mp hids).1 hmem
            cases hlinks : linksOf g with
            | none => simpa [ha, hlinks] using hnone
            | some ls => simp [ha, hlinks, OrdMap.lookup]
          · cases hlinks : linksOf g with
            | none => simpa [ha] using ih
            | some ls => simpa [ha, OrdMap.lookup] using ih

theorem lookup_rows {facts : Facts} (hids : (gpuIds facts).Nodup) (a : String) :
    OrdMap.lookup a (rowsOf (gpuDocs facts)) =
      ((gpuOf facts a).bind linksOf).map fun ls => ls.map reportOf :=
  lookup_rowsOf hids a

theorem sideCount_eq {facts : Facts} (hids : (gpuIds facts).Nodup) {tables : LinkTables}
    (h : Tabulates (rowsOf (gpuDocs facts)) tables) (a b : String) :
    sideCount tables.reported a b = (sideLinks facts a b).map fun n => (n : Int) := by
  rw [h.sideCount, lookup_rows hids]
  unfold sideLinks
  cases gpuOf facts a with
  | none => rfl
  | some g =>
      cases hlinks : linksOf g with
      | none => simp [hlinks]
      | some ls =>
          simp [hlinks, List.count_eq_countP, List.countP_map, Function.comp_def, beq_eq_decide]

/-- A pair without reports counts -1, which no edge comes from. -/
theorem pairLinks_weaker {facts : Facts} (hids : (gpuIds facts).Nodup) {tables : LinkTables}
    (h : Tabulates (rowsOf (gpuDocs facts)) tables) (a b : String) :
    pairLinks tables.reported a b = (weaker facts a b).elim (-1) fun n => (n : Int) := by
  rw [pairLinks_eq, sideCount_eq hids h, sideCount_eq hids h]
  unfold weaker
  cases sideLinks facts a b with
  | none =>
      cases sideLinks facts b a with
      | none => rfl
      | some m => rfl
  | some n =>
      cases sideLinks facts b a with
      | none => rfl
      | some m =>
          show (if (n : Int) < 0 then (m : Int) else min (n : Int) m) = ((min n m : Nat) : Int)
          rw [if_neg (Int.not_lt.mpr (Int.natCast_nonneg n)), Nat.cast_min]

theorem weaker_comm (facts : Facts) (a b : String) : weaker facts a b = weaker facts b a := by
  unfold weaker
  cases sideLinks facts a b with
  | none => cases sideLinks facts b a <;> rfl
  | some n =>
      cases sideLinks facts b a with
      | none => rfl
      | some m => exact congrArg some (min_comm n m)

/-!
## Looking the far ends up
-/

theorem dangling_iff {facts : Facts} :
    Dangling facts <-> ¬ RemotesIn (gpuIds facts) (gpuDocs facts) := by
  unfold Dangling RemotesIn
  push Not
  exact Iff.rfl

theorem checkReport_toGpu {keys : List String} {self remote : String} {r : LinkReport}
    (h : checkReport (setOf keys) self (.toGpu remote) = .ok r) : remote ∈ keys := by
  simp only [checkReport] at h
  split_ifs at h with hkey
  exact setOf_contains.mp hkey

/-- Tables are filled only when every far end is found. -/
theorem remotesIn_of_ok {keys : List String} {gpus : List Json}
    (hdocs : forall g, g ∈ gpus -> GpuDoc g) {tables : LinkTables}
    (h : linkTables (setOf keys) gpus = .ok tables) : RemotesIn keys gpus := by
  unfold linkTables at h
  rcases Fallible.bind_eq_ok.mp h with ⟨rows, hrows, _⟩
  intro g hg ls hls l hl remote hreport
  rcases Fallible.forall₂_mem_left (Fallible.mapM_eq_ok.mp hrows) hg with ⟨row, _, hrow⟩
  rcases (hdocs g hg).busId with ⟨id, hid⟩
  rw [gpuReports_eq (hdocs g hg) (setOf keys) hid, hls] at hrow
  rcases Fallible.bind_eq_ok.mp hrow with ⟨reports, hreports, _⟩
  rcases Fallible.forall₂_mem_left (Fallible.mapM_eq_ok.mp hreports) hl with ⟨r, _, hr⟩
  rw [hreport] at hr
  exact checkReport_toGpu hr

/-- The tables fail only at a far end that is not found. -/
theorem linkTables_error {keys : List String} {gpus : List Json}
    (hdocs : forall g, g ∈ gpus -> GpuDoc g) {fault : Fault}
    (h : linkTables (setOf keys) gpus = .error fault) :
    exists self remote, fault = unknownRemote self remote := by
  unfold linkTables at h
  rcases Fallible.bind_eq_error.mp h with hrows | ⟨rows, _, hnever⟩
  · rcases Fallible.exists_of_mapM_eq_error hrows with ⟨g, hg, herror⟩
    rcases (hdocs g hg).busId with ⟨id, hid⟩
    rw [gpuReports_eq (hdocs g hg) (setOf keys) hid] at herror
    cases hls : linksOf g with
    | none =>
        rw [hls] at herror
        cases herror
    | some ls =>
        rw [hls] at herror
        rcases Fallible.bind_eq_error.mp herror with hreports | ⟨reports, _, hnever⟩
        · rcases Fallible.exists_of_mapM_eq_error hreports with ⟨l, _, hl⟩
          cases hreport : reportOf l with
          | toGpu remote =>
              rw [hreport] at hl
              simp only [checkReport] at hl
              split_ifs at hl
              injection hl with hl
              exact ⟨id, remote, hl.symm⟩
          | unused =>
              rw [hreport] at hl
              cases hl
          | toSwitch =>
              rw [hreport] at hl
              cases hl
        · cases hnever
  · cases hnever

/-!
## Counts of switch links
-/

theorem foldl_countSwitch_find? (self : String) (reports : List LinkReport)
    (toSwitch : OrdMap String Int) (k : String) :
    (reports.foldl (countSwitch self) toSwitch).find? k =
      if k = self ∧ LinkReport.toSwitch ∈ reports then
        some ((toSwitch.find? self).getD 0 + reports.count .toSwitch)
      else toSwitch.find? k := by
  induction reports generalizing toSwitch with
  | nil => simp
  | cons r rest ih =>
      rw [List.foldl_cons, ih]
      cases r with
      | toSwitch =>
          rw [countSwitch, find?_increment, find?_increment, if_pos rfl, Option.getD_some]
          by_cases hk : k = self
          · by_cases hrest : LinkReport.toSwitch ∈ rest
            · rw [if_pos ⟨hk, hrest⟩, if_pos ⟨hk, List.mem_cons_self⟩, List.count_cons_self]
              congr 1
              push_cast
              omega
            · rw [if_neg fun h => hrest h.2, if_pos hk, if_pos ⟨hk, List.mem_cons_self⟩,
                List.count_cons_self, List.count_eq_zero_of_not_mem hrest]
              rfl
          · rw [if_neg fun h => hk h.1, if_neg hk, if_neg fun h => hk h.1]
      | unused => simp [countSwitch]
      | toGpu remote => simp [countSwitch]

/-- The table of switch links counts the reports of each GPU that has one. -/
theorem toSwitch_find? {rows : List (String × List LinkReport)}
    (hrows : (rows.map Prod.fst).Nodup) (x : String) :
    (rows.foldl addReports ⟨OrdMap.empty, OrdMap.empty, OrdMap.empty⟩).toSwitch.find? x =
      ((OrdMap.lookup x rows).map (List.count .toSwitch)).bind fun n =>
        if 0 < n then some (n : Int) else none := by
  induction rows using List.reverseRecOn with
  | nil => rfl
  | append_singleton rows row ih =>
      rw [List.map_append, List.nodup_append] at hrows
      have hnew : row.1 ∉ rows.map Prod.fst := by
        intro hmem
        exact hrows.2.2 row.1 hmem row.1 (List.mem_singleton.mpr rfl) rfl
      have hold : OrdMap.lookup row.1 rows = none := by
        apply OrdMap.lookup_eq_none
        intro e he heq
        exact hnew (heq ▸ List.mem_map_of_mem he)
      have ih := ih hrows.1
      rw [List.foldl_append, List.foldl_cons, List.foldl_nil, lookup_append rows row x hnew]
      generalize rows.foldl addReports ⟨OrdMap.empty, OrdMap.empty, OrdMap.empty⟩ = tables at ih
      unfold addReports
      dsimp only
      rw [foldl_countReport, foldl_countSwitch_find?]
      by_cases hx : x = row.1
      · subst hx
        rw [ih, hold, if_pos rfl]
        by_cases hmem : LinkReport.toSwitch ∈ row.2
        · have hpos : 0 < row.2.count .toSwitch := List.count_pos_iff.mpr hmem
          simp [hmem, hpos]
        · simp [hmem, List.count_eq_zero_of_not_mem hmem]
      · rw [if_neg fun h => hx h.1, if_neg hx]
        exact ih

/-!
## The edges between two ends
-/

/-- A list without repetitions meets a place at most once. -/
theorem flatMap_eq_at {A B : Type*} [DecidableEq A] {xs : List A} (hxs : xs.Nodup)
    {f : A -> List B} {x : A} (h : forall y, y ∈ xs -> y ≠ x -> f y = []) :
    xs.flatMap f = if x ∈ xs then f x else [] := by
  induction xs with
  | nil => rfl
  | cons y rest ih =>
      rw [List.nodup_cons] at hxs
      rw [List.flatMap_cons, ih hxs.2 fun z hz => h z (List.mem_cons_of_mem y hz)]
      by_cases hy : y = x
      · subst hy
        rw [if_neg hxs.1, if_pos List.mem_cons_self, List.append_nil]
      · rw [h y List.mem_cons_self hy, List.nil_append]
        simp only [List.mem_cons, Ne.symm hy, false_or]

theorem ofLex_orderedPair (a b : String) :
    (ofLex (orderedPair a b) = (a, b)) ∨ (ofLex (orderedPair a b) = (b, a)) := by
  unfold orderedPair
  split_ifs
  · exact Or.inr rfl
  · exact Or.inl rfl

theorem orderedPair_ofLex_comm (a b : String) : orderedPair a b = orderedPair b a :=
  orderedPair_eq_iff.mpr (Or.inr ⟨rfl, rfl⟩)

/-- The pair of an edge between two ends is theirs. -/
theorem eq_orderedPair_of_ends {a b c d : String} {pair : String ×ₗ String}
    (hpair : orderedPair c d = pair)
    (h : ((ofLex pair).1 = a ∧ (ofLex pair).2 = b) ∨
      ((ofLex pair).1 = b ∧ (ofLex pair).2 = a)) : pair = orderedPair a b := by
  have hself : orderedPair (ofLex pair).1 (ofLex pair).2 = pair := by
    rw [← hpair]
    rcases ofLex_orderedPair c d with heq | heq
    · rw [heq]
    · rw [heq]
      exact orderedPair_ofLex_comm d c
  rw [← hself]
  exact orderedPair_eq_iff.mpr h

section Tables

variable {facts : Facts} (hids : (gpuIds facts).Nodup)

include hids

theorem tabulates : Tabulates (rowsOf (gpuDocs facts)) (tablesOf (gpuDocs facts)) :=
  tabulates_foldl (hids.sublist (rowsOf_sublist _))

/-- Two ends have the edge of their weaker side, if that reports a link. -/
theorem pairEdges_between (a b : String) :
    ((pairEdges (tablesOf (gpuDocs facts))).filter fun e =>
      (e.fromKey = a ∧ e.toKey = b) ∨ (e.fromKey = b ∧ e.toKey = a)).map Edge.attrs =
        ((weaker facts a b).filter fun n => 0 < n).toList.map linksAttr := by
  have htables := tabulates hids
  have hcount : forall x y, (x = a ∧ y = b) ∨ (x = b ∧ y = a) ->
      pairLinks (tablesOf (gpuDocs facts)).reported x y =
        (weaker facts a b).elim (-1) fun n => (n : Int) := by
    intro x y hxy
    rw [pairLinks_weaker hids htables]
    rcases hxy with ⟨rfl, rfl⟩ | ⟨rfl, rfl⟩
    · rfl
    · rw [weaker_comm]
  have hends : ((ofLex (orderedPair a b)).1 = a ∧ (ofLex (orderedPair a b)).2 = b) ∨
      ((ofLex (orderedPair a b)).1 = b ∧ (ofLex (orderedPair a b)).2 = a) := by
    rcases ofLex_orderedPair a b with heq | heq
    · exact Or.inl (by rw [heq]; exact ⟨rfl, rfl⟩)
    · exact Or.inr (by rw [heq]; exact ⟨rfl, rfl⟩)
  unfold pairEdges
  rw [List.filter_flatMap, flatMap_eq_at (OrdMap.keys_nodup _) (x := orderedPair a b)]
  · dsimp only
    rw [hcount _ _ hends]
    cases hweaker : weaker facts a b with
    | none =>
        have hlinks : ¬ (-1 : Int) > 0 := by decide
        rw [Option.elim_none, if_neg hlinks]
        split_ifs
        · rfl
        · rfl
    | some n =>
        rw [Option.elim_some]
        by_cases hpos : 0 < n
        · -- A positive count comes from a report, which has put the pair into the table.
          have hmem : orderedPair a b ∈ (tablesOf (gpuDocs facts)).pairs.keys := by
            have hlinks : pairLinks (tablesOf (gpuDocs facts)).reported a b > 0 := by
              rw [hcount a b (Or.inl ⟨rfl, rfl⟩), hweaker]
              simpa using hpos
            rcases (htables.joined_iff a b).mpr ((htables.pairLinks_pos a b).mp hlinks) with
              ⟨e, he, hjoins⟩
            rcases mem_pairEdges.mp he with ⟨x, y, hpair, _, rfl⟩
            rcases (htables.pairs _).mp hpair with ⟨row, _, remote, _, heq⟩
            rw [← eq_orderedPair_of_ends heq hjoins]
            exact OrdMap.mem_keys.mpr hpair
          have hlinks : (n : Int) > 0 := by exact_mod_cast hpos
          rw [if_pos hmem, if_pos hlinks, Option.filter_some_pos (by simpa using hpos)]
          simp [hends, nvlinkEdge, linksAttr]
        · have hlinks : ¬ (n : Int) > 0 := by exact_mod_cast hpos
          rw [if_neg hlinks, Option.filter_some_neg (by simpa using hpos)]
          split_ifs
          · rfl
          · rfl
  · intro pair hpair hne
    apply List.filter_eq_nil_iff.mpr
    intro e he
    rcases (htables.pairs _).mp (OrdMap.mem_keys.mp hpair) with ⟨row, _, remote, _, heq⟩
    dsimp only at he
    split_ifs at he
    · rw [List.mem_singleton.mp he]
      simp only [decide_eq_true_eq]
      intro hjoins
      exact hne (eq_orderedPair_of_ends heq hjoins)
    · cases he

/-- The entries of the table of switch links. -/
theorem switchTable (a : String) :
    (tablesOf (gpuDocs facts)).toSwitch.find? a =
      if 0 < switchLinks facts a then some (switchLinks facts a : Int) else none := by
  have hfind := toSwitch_find? (hids.sublist (rowsOf_sublist (gpuDocs facts))) a
  unfold tablesOf
  rw [hfind, lookup_rows hids]
  unfold switchLinks
  cases gpuOf facts a with
  | none => rfl
  | some g =>
      cases hlinks : linksOf g with
      | none => simp [hlinks]
      | some ls =>
          simp [hlinks, List.count_eq_countP, List.countP_map, Function.comp_def, beq_eq_decide]

theorem switchEdges_from (a : String) :
    ((switchEdges (tablesOf (gpuDocs facts))).filter fun e => e.fromKey = a).map Edge.attrs =
      if 0 < switchLinks facts a then [linksAttr (switchLinks facts a)] else [] := by
  unfold switchEdges
  rw [List.filter_map, List.map_map]
  have hfilter : (tablesOf (gpuDocs facts)).toSwitch.entries.filter
      ((fun e : Edge => decide (e.fromKey = a)) ∘ fun e => nvlinkEdge e.1 kSwitchGroup e.2) =
        (((tablesOf (gpuDocs facts)).toSwitch.find? a).map fun v => (a, v)).toList :=
    OrdMap.filter_key (OrdMap.sorted _)
  rw [hfilter, switchTable hids]
  split_ifs
  · rfl
  · rfl

end Tables

/-!
## The NVLinks of a model
-/

/-- The other facts are in order: the second document, the PCI tree and the devices. -/
structure OtherwiseSound (env : Env) (facts : Facts) : Prop where
  nics : Schema.validate env Schema.nics facts.nics = []
  parents : KnownParents facts
  devices : forall id, id ∈ leafIds facts ->
    exists p, (byKey facts).find? id = some p ∧ p.bridge = false

/-- The NVLink edges of a model and its switch group. -/
structure Linked (facts : Facts) (model : Model) : Prop where
  pair : forall a, a ∈ gpuIds facts -> forall b, b ∈ gpuIds facts ->
    (between model.edges a b).map Edge.attrs =
      ((weaker facts a b).filter fun n => 0 < n).toList.map linksAttr
  toSwitch : forall a, a ∈ gpuIds facts ->
    (between model.edges a kSwitchGroup).map Edge.attrs =
      if 0 < switchLinks facts a then [linksAttr (switchLinks facts a)] else []
  group : nodesOf [.switchGroup] model.nodes =
    if exists a, a ∈ gpuIds facts ∧ 0 < switchLinks facts a then
      [⟨.switchGroup, kSwitchGroup, OrdMap.empty⟩]
    else []
  ends : forall e, e ∈ edgesOf .nvlink model.edges -> e.fromKey ∈ gpuIds facts ∧
    (e.toKey ∈ gpuIds facts ∨ e.toKey = kSwitchGroup)

theorem Trace.remotes {facts : Facts} (t : Trace facts)
    (hdocs : forall g, g ∈ gpuDocs facts -> GpuDoc g) :
    RemotesIn (gpuIds facts) (gpuDocs facts) ∧ t.tables = tablesOf (gpuDocs facts) := by
  have htables := t.tables_eq
  rw [← t.gpuDocs_eq, ← t.gpuIds_eq] at htables
  have hremotes := remotesIn_of_ok hdocs htables
  rw [linkTables_ok hdocs hremotes] at htables
  injection htables with htables
  exact ⟨hremotes, htables.symm⟩

/-- A GPU with switch links is one of the document. -/
theorem mem_gpuIds_of_switchLinks {facts : Facts} {a : String} (h : 0 < switchLinks facts a) :
    a ∈ gpuIds facts := by
  unfold switchLinks gpuOf at h
  cases hfind : (gpuDocs facts).find? fun g => busIdOf g = some a with
  | none =>
      rw [hfind] at h
      cases h
  | some g =>
      have hid := List.find?_some hfind
      exact List.mem_filterMap.mpr ⟨g, List.mem_of_find?_eq_some hfind, by simpa using hid⟩

theorem Trace.linked {facts : Facts} (t : Trace facts)
    (hdocs : forall g, g ∈ gpuDocs facts -> GpuDoc g) (hids : (gpuIds facts).Nodup)
    (hgroup : kSwitchGroup ∉ gpuIds facts) : Linked facts t.model := by
  rcases t.remotes hdocs with ⟨hremotes, htables⟩
  have hwithin : TablesWithin (gpuIds facts) (tablesOf (gpuDocs facts)) :=
    rowsOf_within (fun _ hid => hid) hremotes
  have hpairEnds : forall e, e ∈ pairEdges (tablesOf (gpuDocs facts)) ->
      e.fromKey ∈ gpuIds facts ∧ e.toKey ∈ gpuIds facts := by
    intro e he
    rcases mem_pairEdges.mp he with ⟨x, y, hpair, _, rfl⟩
    exact hwithin.pairs _ (OrdMap.mem_keys.mpr hpair)
  have hswitchEnds : forall e, e ∈ switchEdges (tablesOf (gpuDocs facts)) ->
      e.fromKey ∈ gpuIds facts ∧ e.toKey = kSwitchGroup := by
    intro e he
    rcases List.mem_map.mp he with ⟨entry, hentry, rfl⟩
    exact ⟨hwithin.toSwitch entry.1 (List.mem_map_of_mem hentry), rfl⟩
  have hnvlink : edgesOf .nvlink t.model.edges =
      pairEdges (tablesOf (gpuDocs facts)) ++ switchEdges (tablesOf (gpuDocs facts)) := by
    rw [t.edgesOf_nvlink, htables]
  constructor
  · intro a ha b hb
    have hnone : (switchEdges (tablesOf (gpuDocs facts))).filter (fun e =>
        (e.fromKey = a ∧ e.toKey = b) ∨ (e.fromKey = b ∧ e.toKey = a)) = [] := by
      apply List.filter_eq_nil_iff.mpr
      intro e he
      have hto := (hswitchEnds e he).2
      simp only [decide_eq_true_eq, hto]
      rintro (⟨_, rfl⟩ | ⟨_, rfl⟩)
      · exact hgroup hb
      · exact hgroup ha
    unfold between
    rw [hnvlink, List.filter_append, hnone, List.append_nil]
    exact pairEdges_between hids a b
  · intro a ha
    have hnone : (pairEdges (tablesOf (gpuDocs facts))).filter (fun e =>
        (e.fromKey = a ∧ e.toKey = kSwitchGroup) ∨ (e.fromKey = kSwitchGroup ∧ e.toKey = a)) =
          [] := by
      apply List.filter_eq_nil_iff.mpr
      intro e he
      have hends := hpairEnds e he
      simp only [decide_eq_true_eq]
      rintro (⟨_, hto⟩ | ⟨hfrom, _⟩)
      · exact hgroup (hto ▸ hends.2)
      · exact hgroup (hfrom ▸ hends.1)
    have hfrom : (switchEdges (tablesOf (gpuDocs facts))).filter (fun e =>
        (e.fromKey = a ∧ e.toKey = kSwitchGroup) ∨ (e.fromKey = kSwitchGroup ∧ e.toKey = a)) =
          (switchEdges (tablesOf (gpuDocs facts))).filter fun e => e.fromKey = a := by
      apply List.filter_congr
      intro e he
      have hends := hswitchEnds e he
      apply decide_eq_decide.mpr
      constructor
      · rintro (⟨hfrom, _⟩ | ⟨hfrom, _⟩)
        · exact hfrom
        · exact absurd (hfrom ▸ hends.1) hgroup
      · intro hfrom
        exact Or.inl ⟨hfrom, hends.2⟩
    unfold between
    rw [hnvlink, List.filter_append, hnone, List.nil_append, hfrom]
    exact switchEdges_from hids a
  · have hempty : (tablesOf (gpuDocs facts)).toSwitch.entries.isEmpty = true <->
        ¬ exists a, a ∈ gpuIds facts ∧ 0 < switchLinks facts a := by
      rw [List.isEmpty_iff]
      constructor
      · rintro hnil ⟨a, _, hpos⟩
        have hfind := switchTable hids a
        rw [if_pos hpos, OrdMap.find?, hnil] at hfind
        cases hfind
      · intro hnone
        apply List.eq_nil_iff_forall_not_mem.mpr
        rintro ⟨a, n⟩ hmem
        have hfind := OrdMap.mem_entries.mp hmem
        rw [switchTable hids] at hfind
        split_ifs at hfind with hpos
        exact hnone ⟨a, mem_gpuIds_of_switchLinks hpos, hpos⟩
    rw [t.nodesOf_eq _ (by decide) (by decide), htables]
    show switchNodes (tablesOf (gpuDocs facts)) = _
    unfold switchNodes
    by_cases hsome : exists a, a ∈ gpuIds facts ∧ 0 < switchLinks facts a
    · rw [if_pos hsome, if_neg fun h => hempty.mp h hsome]
    · rw [if_neg hsome, if_pos (hempty.mpr hsome)]
  · intro e he
    rw [hnvlink] at he
    rcases List.mem_append.mp he with he | he
    · exact ⟨(hpairEnds e he).1, Or.inl (hpairEnds e he).2⟩
    · exact ⟨(hswitchEnds e he).1, Or.inr (hswitchEnds e he).2⟩

/-- With the other facts in order, only a dangling link breaks the build. -/
theorem build_dangling {facts : Facts} (hdocs : Documents facts) (hparents : KnownParents facts)
    (hdevices : forall id, id ∈ leafIds facts ->
      exists p, (byKey facts).find? id = some p ∧ p.bridge = false) :
    (Dangling facts -> exists self remote, build facts = .error (unknownRemote self remote)) ∧
      (¬ Dangling facts -> exists model, build facts = .ok model) := by
  constructor
  · intro hdangling
    rcases exists_parts hdocs hparents hdevices with ⟨p, hgpuIds, _⟩
    have hlinks : exists fault,
        linkTables (setOf (p.gpuNodes.map Node.key)) (gpuDocs facts) = .error fault := by
      cases htables : linkTables (setOf (p.gpuNodes.map Node.key)) (gpuDocs facts) with
      | error fault => exact ⟨fault, rfl⟩
      | ok tables =>
          rw [hgpuIds] at htables
          exact absurd (remotesIn_of_ok (gpuEntries_gpuDocs hdocs).2 htables)
            (dangling_iff.mp hdangling)
    rcases hlinks with ⟨fault, hfault⟩
    rcases linkTables_error (gpuEntries_gpuDocs hdocs).2 hfault with ⟨self, remote, rfl⟩
    refine ⟨self, remote, ?_⟩
    unfold build
    simp only [p.gpus_eq, p.gpuNodes_eq, p.rdma_eq, p.rdmaIds_eq, p.nics_eq, p.nicNodes_eq,
      p.kept_eq, hfault, bind, Except.bind]
  · intro hnone
    rw [dangling_iff, not_not] at hnone
    rcases exists_trace hdocs hparents hdevices hnone with ⟨t, _⟩
    exact ⟨t.model, build_eq_ok.mpr ⟨t, rfl⟩⟩

/--
For a valid nvml.json of distinct GPUs and a pattern of bus IDs that the switch group does not
match: a dangling link, and only that, is reported when the other facts are in order; and a
model has exactly the NVLinks of the weaker sides and of the switches.
-/
theorem build_nvlinks {env : Env} {facts : Facts}
    (hpattern : env.regexSearch Schema.busIdPattern kSwitchGroup = false)
    (hnvml : facts.nvml = Json.null ∨ Schema.validate env Schema.nvml facts.nvml = [])
    (hids : (gpuIds facts).Nodup) :
    (OtherwiseSound env facts ->
      ((exists self remote, build facts = .error (unknownRemote self remote)) <->
        Dangling facts)) ∧
      (OtherwiseSound env facts -> ¬ Dangling facts -> exists model, build facts = .ok model) ∧
      forall model, build facts = .ok model -> ¬ Dangling facts ∧ Linked facts model := by
  have hgpus : forall g, g ∈ gpuDocs facts -> GpuDoc g ∧
      forall s, g.get? "bus_id" = some (Json.str s) ->
        env.regexSearch Schema.busIdPattern s = true := by
    intro g hg
    unfold gpuDocs at hg
    split_ifs at hg with hobject
    · rcases hnvml with hnull | hvalid
      · rw [hnull] at hobject
        cases hobject
      · rcases gpus_of_accepts ⟨"", hvalid⟩ with ⟨gs, hget, hall⟩
        rw [hget] at hg
        exact hall g hg
    · cases hg
  have hgroup : kSwitchGroup ∉ gpuIds facts := by
    intro hmem
    rcases List.mem_filterMap.mp hmem with ⟨g, hg, hid⟩
    have hget : g.get? "bus_id" = some (Json.str kSwitchGroup) := by
      rcases (hgpus g hg).1.busId with ⟨s, hs⟩
      rw [busIdOf_eq hs] at hid
      rw [hs, Option.some_inj.mp hid]
    rw [(hgpus g hg).2 _ hget] at hpattern
    cases hpattern
  refine ⟨?_, ?_, ?_⟩
  · intro hsound
    have hvalid : Validated env facts := ⟨hnvml, hsound.nics⟩
    have hbuild := build_dangling hvalid.documents hsound.parents hsound.devices
    constructor
    · rintro ⟨self, remote, herror⟩
      by_contra hnone
      rcases hbuild.2 hnone with ⟨model, hmodel⟩
      rw [hmodel] at herror
      cases herror
    · exact hbuild.1
  · intro hsound
    have hvalid : Validated env facts := ⟨hnvml, hsound.nics⟩
    exact (build_dangling hvalid.documents hsound.parents hsound.devices).2
  · intro model hmodel
    rcases build_eq_ok.mp hmodel with ⟨t, rfl⟩
    have hdocs := fun g hg => (hgpus g hg).1
    refine ⟨?_, t.linked hdocs hids hgroup⟩
    rw [dangling_iff, not_not]
    exact (t.remotes hdocs).1

/-- The two linked GPUs share one edge of one link. -/
theorem build_nvlinks_pairFacts : exists model, build pairFacts = .ok model ∧
    (between model.edges "0000:01:00.0" "0000:02:00.0").map Edge.attrs = [linksAttr 1] := by
  have hids : gpuIds pairFacts = ["0000:01:00.0", "0000:02:00.0"] := by decide
  have hnodup : (gpuIds pairFacts).Nodup := by
    rw [hids]
    decide
  rcases pairFacts_consistent.closed pairFacts_keys pairFacts_validated.documents
    pairFacts_parents with ⟨model, hmodel, _⟩
  have hlinked := ((build_nvlinks (by decide) pairFacts_validated.nvml hnodup).2.2
    model hmodel).2
  refine ⟨model, hmodel, ?_⟩
  rw [hlinked.pair _ (by rw [hids]; decide) _ (by rw [hids]; decide)]
  have hweaker : weaker pairFacts "0000:01:00.0" "0000:02:00.0" = some 1 := by decide
  rw [hweaker]
  rfl

end Builder
end Topology
end Ostia

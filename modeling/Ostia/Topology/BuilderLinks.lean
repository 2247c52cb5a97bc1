import Ostia.Topology.BuilderGraph

/-!
# What the link tables count

The tables that the builder fills from the reports of the GPUs hold, for each
GPU with an array of NVLinks, how many of its active links go to each other GPU
and how many go to a switch.  A pair of GPUs is joined when every side with an
array reports a link to the other.
-/

namespace Ostia
namespace Topology

open Foundation

namespace Builder

/-!
## Counting the reports of one GPU
-/

/-- Count one report among the peers of a GPU. -/
def countPeer (peers : OrdMap String Int) : LinkReport -> OrdMap String Int
  | .toGpu remote => increment peers remote
  | _ => peers

/-- Count one report among the switch links of a GPU. -/
def countSwitch (self : String) (toSwitch : OrdMap String Int) :
    LinkReport -> OrdMap String Int
  | .toSwitch => increment toSwitch self
  | _ => toSwitch

theorem foldl_countReport (self : String) (reports : List LinkReport)
    (peers toSwitch : OrdMap String Int) :
    reports.foldl (countReport self) (peers, toSwitch) =
      (reports.foldl countPeer peers, reports.foldl (countSwitch self) toSwitch) := by
  induction reports generalizing peers toSwitch with
  | nil => rfl
  | cons r rest ih =>
      rw [List.foldl_cons, List.foldl_cons, List.foldl_cons]
      cases r with
      | unused => exact ih peers toSwitch
      | toSwitch => exact ih peers (increment toSwitch self)
      | toGpu remote => exact ih (increment peers remote) toSwitch

theorem find?_increment (m : OrdMap String Int) (key k : String) :
    (increment m key).find? k =
      if k = key then some ((m.find? key).getD 0 + 1) else m.find? k :=
  OrdMap.find?_insert m key _ k

/-- After a fold of increments a key holds its count, unless nothing was counted. -/
theorem foldl_countPeer_find? (reports : List LinkReport) (peers : OrdMap String Int)
    (k : String) :
    (reports.foldl countPeer peers).find? k =
      if LinkReport.toGpu k ∈ reports then
        some ((peers.find? k).getD 0 + reports.count (.toGpu k))
      else peers.find? k := by
  induction reports generalizing peers with
  | nil => rfl
  | cons r rest ih =>
      rw [List.foldl_cons, ih]
      by_cases hr : r = .toGpu k
      · subst hr
        have hstep : (countPeer peers (.toGpu k)).find? k =
            some ((peers.find? k).getD 0 + 1) := by
          rw [countPeer, find?_increment, if_pos rfl]
        rw [hstep, if_pos List.mem_cons_self, List.count_cons_self]
        split_ifs with hrest
        · rw [Option.getD_some]
          congr 1
          push_cast
          omega
        · rw [List.count_eq_zero_of_not_mem hrest]
          rfl
      · have hstep : (countPeer peers r).find? k = peers.find? k := by
          cases r with
          | toGpu remote =>
              rw [countPeer, find?_increment, if_neg]
              intro hk
              exact hr (by rw [hk])
          | _ => rfl
        rw [hstep, List.count_cons_of_ne hr]
        simp only [List.mem_cons, Ne.symm hr, false_or]

theorem foldl_countSwitch_contains (self : String) (reports : List LinkReport)
    (toSwitch : OrdMap String Int) (k : String) :
    (reports.foldl (countSwitch self) toSwitch).contains k = true <->
      toSwitch.contains k = true ∨ (k = self ∧ LinkReport.toSwitch ∈ reports) := by
  induction reports generalizing toSwitch with
  | nil => simp
  | cons r rest ih =>
      rw [List.foldl_cons, ih]
      cases r with
      | toSwitch =>
          rw [countSwitch, increment, OrdMap.contains_insert]
          simp only [List.mem_cons, true_or, and_true]
          tauto
      | unused => simp [countSwitch]
      | toGpu remote => simp [countSwitch]

/-!
## The tables of all GPUs
-/

/-- The tables hold the reports of the rows. -/
structure Tabulates (rows : List (String × List LinkReport)) (tables : LinkTables) :
    Prop where
  reported : forall x, tables.reported.find? x =
    (OrdMap.lookup x rows).map fun reports => reports.foldl countPeer OrdMap.empty
  pairs : forall pair, tables.pairs.contains pair = true <->
    exists row, row ∈ rows ∧ exists remote, LinkReport.toGpu remote ∈ row.2 ∧
      orderedPair row.1 remote = pair
  toSwitch : forall x, tables.toSwitch.contains x = true <->
    exists row, row ∈ rows ∧ row.1 = x ∧ LinkReport.toSwitch ∈ row.2

theorem lookup_append {A : Type} (rows : List (String × A)) (row : String × A) (x : String)
    (hnew : row.1 ∉ rows.map Prod.fst) :
    OrdMap.lookup x (rows ++ [row]) =
      if x = row.1 then some row.2 else OrdMap.lookup x rows := by
  induction rows with
  | nil =>
      show (if row.1 = x then some row.2 else none) = _
      simp only [eq_comm]
      rfl
  | cons e rest ih =>
      rw [List.map_cons, List.mem_cons, not_or] at hnew
      show (if e.1 = x then some e.2 else OrdMap.lookup x (rest ++ [row])) = _
      rw [ih hnew.2]
      by_cases he : e.1 = x
      · rw [if_pos he, if_neg (fun hx => hnew.1 (hx.symm.trans he.symm)), OrdMap.lookup,
          if_pos he]
      · rw [if_neg he, OrdMap.lookup, if_neg he]

theorem mem_keys_foldl_countPeer {reports : List LinkReport} {k : String} :
    k ∈ (reports.foldl countPeer OrdMap.empty).keys <-> LinkReport.toGpu k ∈ reports := by
  rw [OrdMap.mem_keys]
  unfold OrdMap.contains
  rw [foldl_countPeer_find?]
  split_ifs with h
  · simp [h]
  · simp [h]

theorem Tabulates.addReports {rows : List (String × List LinkReport)}
    {tables : LinkTables} (h : Tabulates rows tables) {row : String × List LinkReport}
    (hnew : row.1 ∉ rows.map Prod.fst) :
    Tabulates (rows ++ [row]) (addReports tables row) := by
  have hempty : tables.reported.find? row.1 = none := by
    rw [h.reported, OrdMap.lookup_eq_none]
    · rfl
    · intro e he heq
      exact hnew (List.mem_map.mpr ⟨e, he, heq⟩)
  unfold Builder.addReports
  dsimp only
  rw [hempty, foldl_countReport]
  constructor
  · intro x
    dsimp only
    rw [OrdMap.find?_insert, lookup_append rows row x hnew]
    split_ifs
    · rfl
    · exact h.reported x
  · intro pair
    dsimp only
    rw [OrdMap.contains_foldl_insert, h.pairs]
    simp only [Option.getD_none, mem_keys_foldl_countPeer, List.mem_append,
      List.mem_singleton, or_and_right, exists_or, exists_eq_left]
  · intro x
    dsimp only
    rw [foldl_countSwitch_contains, h.toSwitch, eq_comm (a := x)]
    simp only [List.mem_append, List.mem_singleton, or_and_right, exists_or,
      exists_eq_left]

theorem tabulates_foldl {rows : List (String × List LinkReport)}
    (hrows : (rows.map Prod.fst).Nodup) :
    Tabulates rows
      (rows.foldl addReports ⟨OrdMap.empty, OrdMap.empty, OrdMap.empty⟩) := by
  induction rows using List.reverseRecOn with
  | nil =>
      constructor
      · intro x
        rfl
      · intro pair
        simp [OrdMap.contains]
      · intro x
        simp [OrdMap.contains]
  | append_singleton rows row ih =>
      rw [List.map_append, List.nodup_append] at hrows
      rw [List.foldl_append]
      apply (ih hrows.1).addReports
      intro hmem
      exact hrows.2.2 row.1 hmem row.1 (List.mem_singleton.mpr rfl) rfl

/-!
## Joined GPUs
-/

/-- A GPU with an array of NVLinks reports an active link to another one. -/
def Reports (rows : List (String × List LinkReport)) (a b : String) : Prop :=
  exists reports, OrdMap.lookup a rows = some reports ∧ LinkReport.toGpu b ∈ reports

/-- A GPU has an array of NVLinks. -/
def HasLinks (rows : List (String × List LinkReport)) (a : String) : Prop :=
  exists reports, OrdMap.lookup a rows = some reports

/-- A GPU reports an active link to a switch. -/
def Switched (rows : List (String × List LinkReport)) (a : String) : Prop :=
  exists reports, OrdMap.lookup a rows = some reports ∧ LinkReport.toSwitch ∈ reports

theorem Tabulates.sideCount {rows : List (String × List LinkReport)} {tables : LinkTables}
    (h : Tabulates rows tables) (a b : String) :
    sideCount tables.reported a b =
      (OrdMap.lookup a rows).map fun reports => (reports.count (.toGpu b) : Int) := by
  unfold Builder.sideCount
  rw [h.reported, Option.map_map]
  congr 1
  funext reports
  rw [Function.comp_apply, foldl_countPeer_find?]
  split_ifs with hmem
  · simp
  · rw [List.count_eq_zero_of_not_mem hmem]
    rfl

theorem pairLinks_eq (reported : OrdMap String (OrdMap String Int)) (a b : String) :
    pairLinks reported a b =
      match sideCount reported a b, sideCount reported b a with
      | none, none => -1
      | some n, none => n
      | none, some m => m
      | some n, some m => if n < 0 then m else min n m := by
  unfold pairLinks
  rw [List.foldl_cons, List.foldl_cons, List.foldl_nil]
  cases sideCount reported a b with
  | none =>
      cases sideCount reported b a with
      | none => rfl
      | some m => rfl
  | some n =>
      cases sideCount reported b a with
      | none => rfl
      | some m => rfl

/-- A pair has links when some side reports and every side that reports counts one. -/
theorem Tabulates.pairLinks_pos {rows : List (String × List LinkReport)}
    {tables : LinkTables} (h : Tabulates rows tables) (a b : String) :
    pairLinks tables.reported a b > 0 <->
      (HasLinks rows a ∨ HasLinks rows b) ∧ (HasLinks rows a -> Reports rows a b) ∧
        (HasLinks rows b -> Reports rows b a) := by
  have hcount : forall (reports : List LinkReport) (k : String),
      (0 : Int) < (reports.count (.toGpu k) : Int) <-> LinkReport.toGpu k ∈ reports := by
    intro reports k
    rw [Int.natCast_pos, List.count_pos_iff]
  have hnonneg : forall (reports : List LinkReport) (k : String),
      ¬ (reports.count (.toGpu k) : Int) < 0 := by
    intro reports k
    exact Int.not_lt.mpr (Int.natCast_nonneg _)
  rw [pairLinks_eq, h.sideCount, h.sideCount]
  unfold HasLinks Reports
  cases OrdMap.lookup a rows with
  | none =>
      cases OrdMap.lookup b rows with
      | none => simp
      | some reports' => simp
  | some reports =>
      cases OrdMap.lookup b rows with
      | none => simp
      | some reports' =>
          simp only [Option.map_some, if_neg (hnonneg reports b), gt_iff_lt, lt_min_iff,
            hcount]
          simp

theorem orderedPair_eq_iff {a b c d : String} :
    orderedPair a b = orderedPair c d <-> (a = c ∧ b = d) ∨ (a = d ∧ b = c) := by
  unfold orderedPair
  split_ifs with hab hcd hcd
  · simp only [toLex_inj, Prod.mk.injEq]
    constructor
    · intro h
      exact Or.inl ⟨h.2, h.1⟩
    · intro h
      rcases h with h | h
      · exact ⟨h.2, h.1⟩
      · rw [h.1, h.2] at hab
        exact absurd hab (lt_asymm hcd)
  · simp only [toLex_inj, Prod.mk.injEq]
    constructor
    · intro h
      exact Or.inr ⟨h.2, h.1⟩
    · intro h
      rcases h with h | h
      · rw [h.1, h.2] at hab
        exact absurd hab hcd
      · exact ⟨h.2, h.1⟩
  · simp only [toLex_inj, Prod.mk.injEq]
    constructor
    · intro h
      exact Or.inr h
    · intro h
      rcases h with h | h
      · rw [h.1, h.2] at hab
        exact absurd hcd hab
      · exact h
  · simp only [toLex_inj, Prod.mk.injEq]
    constructor
    · intro h
      exact Or.inl h
    · intro h
      rcases h with h | h
      · exact h
      · -- Neither order is strict, so the two keys are the same.
        rw [h.1, h.2] at hab
        have heq := le_antisymm (le_of_not_gt hab) (le_of_not_gt hcd)
        rw [h.1, h.2, heq]
        exact ⟨rfl, rfl⟩

theorem lookup_eq_of_mem {A : Type} {rows : List (String × A)}
    (hrows : (rows.map Prod.fst).Nodup) {row : String × A} (hrow : row ∈ rows) :
    OrdMap.lookup row.1 rows = some row.2 := by
  induction rows with
  | nil => cases hrow
  | cons e rest ih =>
      rw [List.map_cons, List.nodup_cons] at hrows
      rw [OrdMap.lookup]
      rcases List.mem_cons.mp hrow with heq | hrest
      · rw [heq, if_pos rfl]
      · rw [if_neg, ih hrows.2 hrest]
        intro heq
        exact hrows.1 (heq ▸ List.mem_map_of_mem hrest)

theorem mem_pairEdges {tables : LinkTables} {e : Edge} :
    e ∈ pairEdges tables <-> exists x y, tables.pairs.contains (toLex (x, y)) = true ∧
      pairLinks tables.reported x y > 0 ∧
      e = nvlinkEdge x y (pairLinks tables.reported x y) := by
  unfold pairEdges
  rw [List.mem_flatMap]
  constructor
  · intro h
    rcases h with ⟨pair, hpair, he⟩
    dsimp only at he
    split_ifs at he with hpos
    · exact ⟨(ofLex pair).1, (ofLex pair).2, OrdMap.mem_keys.mp hpair, hpos,
        List.mem_singleton.mp he⟩
    · cases he
  · intro h
    rcases h with ⟨x, y, hpair, hpos, he⟩
    refine ⟨toLex (x, y), OrdMap.mem_keys.mpr hpair, ?_⟩
    show e ∈ if pairLinks tables.reported x y > 0 then
      [nvlinkEdge x y (pairLinks tables.reported x y)] else []
    rw [if_pos hpos]
    exact List.mem_singleton.mpr he

/-- Two GPUs are joined by an edge of the pairs when every side with links reports one. -/
theorem Tabulates.joined_iff {rows : List (String × List LinkReport)} {tables : LinkTables}
    (h : Tabulates rows tables) (a b : String) :
    (exists e, e ∈ pairEdges tables ∧
      ((e.fromKey = a ∧ e.toKey = b) ∨ (e.fromKey = b ∧ e.toKey = a))) <->
      (HasLinks rows a ∨ HasLinks rows b) ∧ (HasLinks rows a -> Reports rows a b) ∧
        (HasLinks rows b -> Reports rows b a) := by
  constructor
  · intro hedge
    rcases hedge with ⟨e, he, hends⟩
    rcases mem_pairEdges.mp he with ⟨x, y, _, hpos, rfl⟩
    rw [h.pairLinks_pos] at hpos
    rcases hends with ⟨hx, hy⟩ | ⟨hx, hy⟩
    · change x = a at hx
      change y = b at hy
      rw [hx, hy] at hpos
      exact hpos
    · change x = b at hx
      change y = a at hy
      rw [hx, hy] at hpos
      exact ⟨hpos.1.symm, hpos.2.2, hpos.2.1⟩
  · intro hboth
    have hpair : tables.pairs.contains (orderedPair a b) = true := by
      rw [h.pairs]
      rcases hboth with ⟨ha | hb, hab, hba⟩
      · rcases hab ha with ⟨reports, hlookup, hmem⟩
        exact ⟨(a, reports), OrdMap.mem_of_lookup hlookup, b, hmem, rfl⟩
      · rcases hba hb with ⟨reports, hlookup, hmem⟩
        refine ⟨(b, reports), OrdMap.mem_of_lookup hlookup, a, hmem, ?_⟩
        exact orderedPair_eq_iff.mpr (Or.inr ⟨rfl, rfl⟩)
    unfold orderedPair at hpair
    split_ifs at hpair
    · have hpos := (h.pairLinks_pos b a).mpr ⟨hboth.1.symm, hboth.2.2, hboth.2.1⟩
      exact ⟨_, mem_pairEdges.mpr ⟨b, a, hpair, hpos, rfl⟩, Or.inr ⟨rfl, rfl⟩⟩
    · have hpos := (h.pairLinks_pos a b).mpr hboth
      exact ⟨_, mem_pairEdges.mpr ⟨a, b, hpair, hpos, rfl⟩, Or.inl ⟨rfl, rfl⟩⟩

theorem Tabulates.switched_iff {rows : List (String × List LinkReport)}
    {tables : LinkTables} (h : Tabulates rows tables) (hrows : (rows.map Prod.fst).Nodup)
    (a : String) :
    (exists e, e ∈ switchEdges tables ∧ e.fromKey = a) <-> Switched rows a := by
  have hcontains : (exists e, e ∈ switchEdges tables ∧ e.fromKey = a) <->
      tables.toSwitch.contains a = true := by
    unfold switchEdges
    rw [← OrdMap.mem_keys]
    unfold OrdMap.keys
    simp only [List.mem_map, exists_exists_and_eq_and]
    rfl
  rw [hcontains, h.toSwitch]
  constructor
  · intro hrow
    rcases hrow with ⟨row, hrow, rfl, hmem⟩
    exact ⟨row.2, lookup_eq_of_mem hrows hrow, hmem⟩
  · intro hswitched
    rcases hswitched with ⟨reports, hlookup, hmem⟩
    exact ⟨(a, reports), OrdMap.mem_of_lookup hlookup, rfl, hmem⟩

end Builder
end Topology
end Ostia

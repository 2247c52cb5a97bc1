import Mathlib.Data.List.Infix
import Ostia.Dev.Text
import Ostia.Foundation.Binary64
import Ostia.Topology.BuilderContract
import Ostia.Topology.BuilderLinks

/-!
# Benchmark records to links

The converter turns the unidirectional copies of a benchmark run into measured
links between GPUs, keyed by bus ID.  A link is an NVLink when nvml.json of the
capture shows an active NVLink between the two GPUs, directly or through
switches.

The builder reads the same document and takes the weaker of the two reporting
sides, the converter takes any one side; the module says when they agree.
-/

namespace Ostia
namespace Dev

open Foundation
open Ostia.Topology
open Ostia.Topology.Builder (StringSet)
open Text (violation)

namespace Links

/--
What the converter takes from Python: the text of a value that is no string,
lower case, and the rounded median in MB/s of samples in GB/s.
-/
structure Python where
  str : Json -> String
  lower : String -> String
  bwMbps : List Json -> Int

/-- How a conversion can end without links: a usage error or another exception. -/
inductive Failure where
  | usage (message : String)
  | raised (exception : String)
deriving DecidableEq

def unit : String := "GB/s"

def badRecord (index : Nat) (problem rule : String) : Failure :=
  .usage (violation ("record " ++ toString index ++ ": " ++ problem) [] rule
    "convert the JSONL of a run whose benchmarks write `devices` (pixi run ostia-dev bench run)"
    "RFC-0003 §8")

def badCapture (problem fix : String) : Failure :=
  .usage (violation problem []
    "a link's kind comes from the NVLinks in the capture of the measured machine" fix
    "RFC-0003 §8")

/-!
## The NVLinks of a capture
-/

/-- The get method of a dictionary; other values have none. -/
def get (j : Json) (key : String) : Except Failure (Option Json) :=
  match j with
  | .obj fields => .ok (OrdMap.lookup key fields)
  | _ => .error (.raised "AttributeError")

/-- The values that a loop visits. -/
def iterate : Json -> Except Failure (List Json)
  | .arr xs => .ok xs
  | .obj fields => .ok (fields.map fun e => .str e.1)
  | .str s => .ok (s.toList.map fun c => .str (String.singleton c))
  | _ => .error (.raised "TypeError")

def text (py : Python) : Json -> String
  | .str s => s
  | j => py.str j

def getText (py : Python) (j : Json) (key : String) : Except Failure String := do
  let v ← get j key
  pure (text py (v.getD (.str "")))

def isText (v : Option Json) (s : String) : Bool :=
  match v with
  | some (.str t) => t == s
  | _ => false

abbrev PairSet : Type := OrdMap (String ×ₗ String) Unit

structure NvLinks where
  buses : StringSet
  direct : PairSet
  switched : StringSet

def addLink (py : Python) (bus : String) (s : NvLinks) (link : Json) :
    Except Failure NvLinks := do
  let state ← get link "state"
  if !isText state "active" then pure s
  else
    let remoteType ← get link "remote_type"
    if isText remoteType "gpu" then
      let name ← getText py link "remote_bus_id"
      let remote := py.lower name
      pure { s with
        direct := (s.direct.insert (toLex (bus, remote)) ()).insert (toLex (remote, bus)) () }
    else if isText remoteType "switch" then
      pure { s with switched := s.switched.insert bus () }
    else pure s

def addGpu (py : Python) (s : NvLinks) (gpu : Json) : Except Failure NvLinks := do
  let name ← getText py gpu "bus_id"
  let bus := py.lower name
  let s := { s with buses := s.buses.insert bus () }
  let links ← get gpu "nvlinks"
  match links with
  | some (.arr ls) => ls.foldlM (addLink py bus) s
  | _ => pure s

/-- Two different GPUs that are both linked to switches. -/
def overSwitch (switched : StringSet) : List (String ×ₗ String) :=
  switched.keys.flatMap fun a =>
    (switched.keys.filter fun b => a ≠ b).map fun b => toLex (a, b)

def nvlinked (s : NvLinks) : PairSet :=
  (overSwitch s.switched).foldl (fun pairs pair => pairs.insert pair ()) s.direct

/-- The GPUs of a capture and its NVLinks; nothing stands for a file that does not read. -/
def gpusAndNvlinks (py : Python) (nvml : Option Json) :
    Except Failure (StringSet × PairSet) := do
  match nvml.bind (fun doc => doc.get? "gpus") with
  | none =>
      .error (badCapture "the capture has no readable nvml.json"
        "pass --capture <dir> of a complete capture of the machine that ran the benchmarks")
  | some gpus =>
      let entries ← iterate gpus
      let s ← entries.foldlM (addGpu py) ⟨OrdMap.empty, OrdMap.empty, OrdMap.empty⟩
      pure (s.buses, nvlinked s)

/-!
## Records
-/

/-- The measurements of one source, destination and size. -/
structure Group where
  concurrency : Int
  samples : List Json

abbrev Groups : Type := OrdMap (String ×ₗ String ×ₗ Int) Group

structure Link where
  src : String
  dst : String
  kind : String
  bwMbps : Int
  bytes : Int
  concurrency : Int
  samples : Nat
deriving DecidableEq

def intParam (params : List (String × Json)) (key : String) (index : Nat) :
    Except Failure Int :=
  match OrdMap.lookup key params with
  | some (.int n) => .ok n
  | _ =>
      .error (badRecord index ("p2p_copy has no integer params." ++ key)
        "a link's test names the bytes and concurrency it was measured with")

def busMember (devices : Option Json) (key : String) : Option String :=
  match devices with
  | some (.obj fields) =>
      match OrdMap.lookup key fields with
      | some (.str s) => some s
      | _ => none
  | _ => none

/-- Every sample is a finite number; the first that is none ends the test.  An integer that is
too large for a float raises, and a number with a fraction or an exponent is read as infinite. -/
def checkSamples : List Json -> Except Failure Bool
  | [] => .ok true
  | .int n :: rest =>
      if n.natAbs < Binary64.limit then checkSamples rest else .error (.raised "OverflowError")
  | .float q :: rest => if |q| < Binary64.limit then checkSamples rest else .ok false
  | _ :: _ => .ok false

/-- Both directions at once, which no single link carries. -/
def bidirectional (direction : String) : Bool := "<->".toList <:+: direction.toList

/-- Pool the samples of a record with those of the same source, destination and size. -/
def pool (groups : Groups) (index : Nat) (src dst : String) (size concurrency : Int)
    (samples : List Json) : Except Failure Groups :=
  let key := toLex (src, toLex (dst, size))
  let group := (groups.find? key).getD ⟨concurrency, []⟩
  if group.concurrency ≠ concurrency then
    .error (badRecord index "p2p_copy repeats a (from, to, bytes) with another concurrency"
      "links.json holds one entry per (from, to, bytes)")
  else .ok (groups.insert key ⟨concurrency, group.samples ++ samples⟩)

def addCopy (py : Python) (gpus : StringSet) (groups : Groups) (index : Nat)
    (record params : List (String × Json)) : Except Failure Groups := do
  let devices := OrdMap.lookup "devices" record
  match busMember devices "src_bus", busMember devices "dst_bus" with
  | some srcBus, some dstBus =>
      let src := py.lower srcBus
      let dst := py.lower dstBus
      if !(Schema.isBusId src && Schema.isBusId dst) then
        .error (badRecord index "devices holds a malformed bus ID"
          "bus IDs are dddd:bb:dd.f, lowercase")
      else
        let concurrency ← intParam params "concurrency" index
        let size ← intParam params "bytes" index
        if src = dst then pure groups
        else if !(gpus.contains src && gpus.contains dst) then
          .error (badCapture
            ("record " ++ toString index ++ " measured a GPU the capture does not list")
            "pass --capture <dir> of the machine that ran the benchmarks")
        else
          match isText (OrdMap.lookup "unit" record) unit, OrdMap.lookup "samples" record with
          | true, some (.arr (v :: rest)) => do
              if !(← checkSamples (v :: rest)) then
                .error (badRecord index "p2p_copy has a sample that is not a finite number"
                  "samples are numbers in GB/s")
              else pool groups index src dst size concurrency (v :: rest)
          | _, _ =>
              .error (badRecord index ("p2p_copy has no samples in " ++ unit)
                "bandwidths are medians of samples")
  | _, _ =>
      .error (badRecord index "p2p_copy has no devices.src_bus and devices.dst_bus"
        "links are keyed by bus ID; CUDA ordinals are never mapped")

def addRecord (py : Python) (gpus : StringSet) (groups : Groups) (record : Json × Nat) :
    Except Failure Groups :=
  match record.1 with
  | .obj fields =>
      if !isText (OrdMap.lookup "bench" fields) "p2p_copy" then .ok groups
      else
        let params :=
          match OrdMap.lookup "params" fields with
          | some (.obj params) => params
          | _ => []
        if bidirectional (text py ((OrdMap.lookup "direction" params).getD (.str ""))) then
          .ok groups
        else addCopy py gpus groups record.2 fields params
  | _ =>
      .error (badRecord record.2 "is not a JSON object"
        "records are one JSON object per line")

def kindOf (nvlinked : PairSet) (src dst : String) : String :=
  if nvlinked.contains (toLex (src, dst)) then "nvlink" else "pcie"

def toLink (py : Python) (nvlinked : PairSet)
    (entry : (String ×ₗ String ×ₗ Int) × Group) : Except Failure Link :=
  let src := (ofLex entry.1).1
  let dst := (ofLex (ofLex entry.1).2).1
  let size := (ofLex (ofLex entry.1).2).2
  let bw := py.bwMbps entry.2.samples
  if bw < 1 then
    .error (badCapture "a measured link rounds to 0 MB/s"
      "rerun the benchmark; a zero bandwidth is a failed measurement")
  else
    .ok ⟨src, dst, kindOf nvlinked src dst, bw, size, entry.2.concurrency,
      entry.2.samples.length⟩

/-- The measured links of the records, sorted by source, destination and size. -/
def linksFromRecords (py : Python) (records : List Json) (nvml : Option Json) :
    Except Failure (List Link) := do
  let (gpus, nvlinked) ← gpusAndNvlinks py nvml
  let groups ← (records.zipIdx 1).foldlM (addRecord py gpus) OrdMap.empty
  groups.entries.mapM (toLink py nvlinked)

/-!
## The NVLinks of a validated capture
-/

open Ostia.Topology.Builder (LinkReport reportOf linksOf rowsOf idsOf LinkDoc GpuDoc)

/-- What one report of a GPU adds. -/
def addReport (bus : String) (s : NvLinks) : LinkReport -> NvLinks
  | .unused => s
  | .toSwitch => { s with switched := s.switched.insert bus () }
  | .toGpu remote =>
      { s with
        direct := (s.direct.insert (toLex (bus, remote)) ()).insert (toLex (remote, bus)) () }

theorem get_of_isObject {j : Json} (h : exists fields, j = Json.obj fields) (key : String) :
    get j key = .ok (j.get? key) := by
  rcases h with ⟨fields, rfl⟩
  rfl

theorem isText_get? (j : Json) (key s : String) :
    isText (j.get? key) s = Builder.memberIs j key s := by
  unfold isText Builder.memberIs
  cases j.get? key with
  | none => rfl
  | some v =>
      cases v with
      | str t => rfl
      | _ => rfl

theorem text_remote {py : Python} {l : Json} (h : LinkDoc l) :
    text py ((l.get? "remote_bus_id").getD (.str "")) = Builder.remoteName l := by
  unfold Builder.remoteName
  cases hget : l.get? "remote_bus_id" with
  | none => rfl
  | some v =>
      rcases h.remote v hget with ⟨s, rfl⟩
      rfl

theorem addLink_eq {py : Python} {l : Json} (h : LinkDoc l)
    (hlower : forall remote, reportOf l = .toGpu remote -> py.lower remote = remote)
    (bus : String) (s : NvLinks) :
    addLink py bus s l = .ok (addReport bus s (reportOf l)) := by
  unfold addLink getText
  unfold reportOf at hlower ⊢
  rw [get_of_isObject h.isObject, get_of_isObject h.isObject, get_of_isObject h.isObject]
  simp only [bind, Except.bind, isText_get?]
  by_cases hactive : Builder.memberIs l "state" "active" = true
  · by_cases hswitch : Builder.memberIs l "remote_type" "switch" = true
    · -- The two readings test the kinds in opposite orders, but a string is only one of them.
      have hgpu : Builder.memberIs l "remote_type" "gpu" = false := by
        unfold Builder.memberIs at hswitch ⊢
        cases hget : l.get? "remote_type" with
        | none => rfl
        | some v =>
            rw [hget] at hswitch
            rw [Builder.isStr_iff.mp hswitch]
            rfl
      simp [hactive, hswitch, hgpu, addReport, pure, Except.pure]
    · by_cases hgpu : Builder.memberIs l "remote_type" "gpu" = true
      · have hremote := hlower (Builder.remoteName l) (by simp [hactive, hswitch, hgpu])
        simp [hactive, hswitch, hgpu, addReport, pure, Except.pure, text_remote h, hremote]
      · simp [hactive, hswitch, hgpu, addReport, pure, Except.pure]
  · simp [hactive, addReport, pure, Except.pure]

theorem foldlM_addLink {py : Python} {ls : List Json} (hdocs : forall l, l ∈ ls -> LinkDoc l)
    (hlower : forall l, l ∈ ls -> forall remote, reportOf l = .toGpu remote ->
      py.lower remote = remote) (bus : String) (s : NvLinks) :
    ls.foldlM (addLink py bus) s = .ok ((ls.map reportOf).foldl (addReport bus) s) := by
  induction ls generalizing s with
  | nil => rfl
  | cons l rest ih =>
      rw [List.foldlM_cons, addLink_eq (hdocs l List.mem_cons_self)
        (hlower l List.mem_cons_self)]
      exact ih (fun l' hl' => hdocs l' (List.mem_cons_of_mem l hl'))
        (fun l' hl' => hlower l' (List.mem_cons_of_mem l hl')) _

/-- What the rows of some GPUs add to the sets. -/
structure Collected (ids : List String) (rows : List (String × List LinkReport))
    (s s' : NvLinks) : Prop where
  buses : forall k, s'.buses.contains k = true <-> s.buses.contains k = true ∨ k ∈ ids
  direct : forall x y, s'.direct.contains (toLex (x, y)) = true <->
    s.direct.contains (toLex (x, y)) = true ∨ exists row, row ∈ rows ∧
      ((row.1 = x ∧ LinkReport.toGpu y ∈ row.2) ∨ (row.1 = y ∧ LinkReport.toGpu x ∈ row.2))
  switched : forall k, s'.switched.contains k = true <->
    s.switched.contains k = true ∨ exists row, row ∈ rows ∧ row.1 = k ∧
      LinkReport.toSwitch ∈ row.2

theorem foldl_addReport_buses (bus : String) (reports : List LinkReport) (s : NvLinks) :
    (reports.foldl (addReport bus) s).buses = s.buses := by
  induction reports generalizing s with
  | nil => rfl
  | cons r rest ih =>
      rw [List.foldl_cons, ih]
      cases r with
      | _ => rfl

theorem foldl_addReport_direct (bus : String) (reports : List LinkReport) (s : NvLinks)
    (x y : String) :
    (reports.foldl (addReport bus) s).direct.contains (toLex (x, y)) = true <->
      s.direct.contains (toLex (x, y)) = true ∨
        (bus = x ∧ LinkReport.toGpu y ∈ reports) ∨ (bus = y ∧ LinkReport.toGpu x ∈ reports) := by
  induction reports generalizing s with
  | nil => simp
  | cons r rest ih =>
      rw [List.foldl_cons, ih]
      cases r with
      | unused => simp [addReport]
      | toSwitch => simp [addReport]
      | toGpu remote =>
          simp only [addReport, OrdMap.contains_insert, toLex_inj, Prod.mk.injEq,
            List.mem_cons, LinkReport.toGpu.injEq]
          constructor
          · intro h
            rcases h with (⟨hx, hy⟩ | ⟨hx, hy⟩ | h) | ⟨hx, h⟩ | ⟨hy, h⟩
            · exact Or.inr (Or.inr ⟨hy.symm, Or.inl hx⟩)
            · exact Or.inr (Or.inl ⟨hx.symm, Or.inl hy⟩)
            · exact Or.inl h
            · exact Or.inr (Or.inl ⟨hx, Or.inr h⟩)
            · exact Or.inr (Or.inr ⟨hy, Or.inr h⟩)
          · intro h
            rcases h with h | ⟨hx, hy | h⟩ | ⟨hy, hx | h⟩
            · exact Or.inl (Or.inr (Or.inr h))
            · exact Or.inl (Or.inr (Or.inl ⟨hx.symm, hy⟩))
            · exact Or.inr (Or.inl ⟨hx, h⟩)
            · exact Or.inl (Or.inl ⟨hx, hy.symm⟩)
            · exact Or.inr (Or.inr ⟨hy, h⟩)

theorem foldl_addReport_switched (bus : String) (reports : List LinkReport) (s : NvLinks)
    (k : String) :
    (reports.foldl (addReport bus) s).switched.contains k = true <->
      s.switched.contains k = true ∨ (bus = k ∧ LinkReport.toSwitch ∈ reports) := by
  induction reports generalizing s with
  | nil => simp
  | cons r rest ih =>
      rw [List.foldl_cons, ih]
      cases r with
      | unused => simp [addReport]
      | toGpu remote => simp [addReport]
      | toSwitch =>
          simp only [addReport, OrdMap.contains_insert, List.mem_cons, true_or, and_true]
          rw [eq_comm (a := k)]
          tauto

theorem addGpu_eq {py : Python} {g : Json} (h : GpuDoc g) {id : String}
    (hid : g.get? "bus_id" = some (Json.str id)) (hself : py.lower id = id)
    (hlower : forall ls, linksOf g = some ls -> forall l, l ∈ ls -> forall remote,
      reportOf l = .toGpu remote -> py.lower remote = remote) (s : NvLinks) :
    addGpu py s g =
      match linksOf g with
      | some ls => .ok ((ls.map reportOf).foldl (addReport id)
          { s with buses := s.buses.insert id () })
      | none => .ok { s with buses := s.buses.insert id () } := by
  have hobject : exists fields, g = Json.obj fields := by
    cases g with
    | obj fields => exact ⟨fields, rfl⟩
    | _ => cases hid
  rcases h.nvlinks with ⟨v, hv, hlinks⟩
  unfold addGpu getText
  rw [get_of_isObject hobject, get_of_isObject hobject, hid]
  unfold linksOf at hlower ⊢
  rw [hv] at hlower ⊢
  simp only [bind, Except.bind, pure, Except.pure, Option.getD_some, text, hself]
  cases v with
  | arr ls => exact foldlM_addLink (hlinks ls rfl) (hlower ls rfl) id _
  | _ => rfl

theorem foldlM_addGpu {py : Python} {gpus : List Json}
    (hdocs : forall g, g ∈ gpus -> GpuDoc g)
    (hself : forall id, id ∈ idsOf gpus -> py.lower id = id)
    (hlower : forall g, g ∈ gpus -> forall ls, linksOf g = some ls -> forall l, l ∈ ls ->
      forall remote, reportOf l = .toGpu remote -> py.lower remote = remote) (s : NvLinks) :
    exists s', gpus.foldlM (addGpu py) s = .ok s' ∧
      Collected (idsOf gpus) (rowsOf gpus) s s' := by
  induction gpus generalizing s with
  | nil =>
      refine ⟨s, rfl, ?_, ?_, ?_⟩
      · intro k
        simp [idsOf]
      · intro x y
        simp [rowsOf]
      · intro k
        simp [rowsOf]
  | cons g rest ih =>
      have hdoc := hdocs g List.mem_cons_self
      rcases hdoc.busId with ⟨id, hid⟩
      have hids : idsOf (g :: rest) = id :: idsOf rest := by
        unfold idsOf
        rw [List.filterMap_cons, Builder.busIdOf_eq hid]
      rw [hids] at hself ⊢
      have hadd := addGpu_eq hdoc hid (hself id List.mem_cons_self)
        (hlower g List.mem_cons_self) s
      have ih := ih (fun g' hg' => hdocs g' (List.mem_cons_of_mem g hg'))
        (fun id' hid' => hself id' (List.mem_cons_of_mem id hid'))
        (fun g' hg' => hlower g' (List.mem_cons_of_mem g hg'))
      rw [List.foldlM_cons, hadd]
      cases hlinks : linksOf g with
      | none =>
          have hrows : rowsOf (g :: rest) = rowsOf rest := by
            unfold rowsOf
            rw [List.filterMap_cons, Builder.busIdOf_eq hid, hlinks]
          rcases ih { s with buses := s.buses.insert id () } with ⟨s', hs', hcollected⟩
          refine ⟨s', hs', ?_, ?_, ?_⟩
          · intro k
            rw [hcollected.buses, OrdMap.contains_insert, List.mem_cons]
            tauto
          · rw [hrows]
            exact hcollected.direct
          · rw [hrows]
            exact hcollected.switched
      | some ls =>
          have hrows : rowsOf (g :: rest) = (id, ls.map reportOf) :: rowsOf rest := by
            unfold rowsOf
            rw [List.filterMap_cons, Builder.busIdOf_eq hid, hlinks]
          rcases ih ((ls.map reportOf).foldl (addReport id)
            { s with buses := s.buses.insert id () }) with ⟨s', hs', hcollected⟩
          refine ⟨s', hs', ?_, ?_, ?_⟩
          · intro k
            rw [hcollected.buses, foldl_addReport_buses, OrdMap.contains_insert, List.mem_cons]
            tauto
          · intro x y
            rw [hcollected.direct, foldl_addReport_direct, hrows,
              List.exists_mem_cons_iff (fun row : String × List LinkReport =>
                (row.1 = x ∧ LinkReport.toGpu y ∈ row.2) ∨
                  (row.1 = y ∧ LinkReport.toGpu x ∈ row.2)), or_assoc]
          · intro k
            rw [hcollected.switched, foldl_addReport_switched, hrows,
              List.exists_mem_cons_iff (fun row : String × List LinkReport =>
                row.1 = k ∧ LinkReport.toSwitch ∈ row.2), or_assoc]

theorem nvlinked_contains (s : NvLinks) (a b : String) :
    (nvlinked s).contains (toLex (a, b)) = true <->
      s.direct.contains (toLex (a, b)) = true ∨
        (a ≠ b ∧ s.switched.contains a = true ∧ s.switched.contains b = true) := by
  unfold nvlinked overSwitch
  rw [OrdMap.contains_foldl_insert]
  simp only [List.mem_flatMap, List.mem_map, List.mem_filter, OrdMap.mem_keys,
    exists_eq_right, toLex_inj, Prod.mk.injEq, decide_eq_true_eq]
  constructor
  · intro h
    rcases h with h | ⟨x, hx, y, ⟨hy, hxy⟩, hxa, hyb⟩
    · exact Or.inl h
    · rw [hxa] at hx hxy
      rw [hyb] at hy hxy
      exact Or.inr ⟨hxy, hx, hy⟩
  · intro h
    rcases h with h | ⟨hne, ha, hb⟩
    · exact Or.inl h
    · exact Or.inr ⟨a, ha, b, ⟨hb, hne⟩, rfl, rfl⟩

/-- The converter takes a link of any one side, or both ends on switches. -/
theorem Collected.nvlinked_iff {ids : List String} {rows : List (String × List LinkReport)}
    {s : NvLinks}
    (h : Collected ids rows ⟨OrdMap.empty, OrdMap.empty, OrdMap.empty⟩ s)
    (hrows : (rows.map Prod.fst).Nodup) {a b : String} (hab : a ≠ b) :
    (nvlinked s).contains (toLex (a, b)) = true <->
      Builder.Reports rows a b ∨ Builder.Reports rows b a ∨
        (Builder.Switched rows a ∧ Builder.Switched rows b) := by
  have hreports : forall x y, (exists row, row ∈ rows ∧ row.1 = x ∧
      LinkReport.toGpu y ∈ row.2) <-> Builder.Reports rows x y := by
    intro x y
    constructor
    · intro hrow
      rcases hrow with ⟨row, hrow, rfl, hmem⟩
      exact ⟨row.2, Builder.lookup_eq_of_mem hrows hrow, hmem⟩
    · intro hreports
      rcases hreports with ⟨reports, hlookup, hmem⟩
      exact ⟨(x, reports), OrdMap.mem_of_lookup hlookup, rfl, hmem⟩
  have hswitched : forall x, s.switched.contains x = true <-> Builder.Switched rows x := by
    intro x
    rw [h.switched]
    constructor
    · intro hrow
      rcases hrow with hempty | ⟨row, hrow, rfl, hmem⟩
      · cases hempty
      · exact ⟨row.2, Builder.lookup_eq_of_mem hrows hrow, hmem⟩
    · intro hswitched
      rcases hswitched with ⟨reports, hlookup, hmem⟩
      exact Or.inr ⟨(x, reports), OrdMap.mem_of_lookup hlookup, rfl, hmem⟩
  have hdirect : s.direct.contains (toLex (a, b)) = true <->
      Builder.Reports rows a b ∨ Builder.Reports rows b a := by
    rw [h.direct, ← hreports, ← hreports, ← exists_or]
    simp only [← and_or_left]
    constructor
    · intro hrow
      rcases hrow with hempty | hrow
      · cases hempty
      · exact hrow
    · exact Or.inr
  rw [nvlinked_contains, hdirect, hswitched, hswitched, or_assoc]
  constructor
  · intro hall
    exact hall.imp_right (Or.imp_right And.right)
  · intro hall
    exact hall.imp_right (Or.imp_right (And.intro hab))

/-!
## The NVLinks of the built model
-/

def NvlinkBetween (model : Model) (a b : String) : Prop :=
  exists e, e ∈ model.edges ∧ e.kind = EdgeKind.nvlink ∧
    ((e.fromKey = a ∧ e.toKey = b) ∨ (e.fromKey = b ∧ e.toKey = a))

def NvlinkTo (model : Model) (a key : String) : Prop :=
  exists e, e ∈ model.edges ∧ e.kind = EdgeKind.nvlink ∧ e.fromKey = a ∧ e.toKey = key

theorem mem_model_nvlink {facts : Facts} (t : Builder.Trace facts) {e : Edge} :
    e ∈ t.model.edges ∧ e.kind = EdgeKind.nvlink <->
      e ∈ Builder.pairEdges t.tables ∨ e ∈ Builder.switchEdges t.tables := by
  unfold Builder.Trace.model
  simp only [List.mem_append]
  constructor
  · intro h
    rcases h with ⟨(he | he) | he, hkind⟩
    · rcases List.mem_flatMap.mp he with ⟨p, _, he⟩
      rcases (Builder.mem_pciEdges.mp he).2 with ⟨_, he⟩ | ⟨_, n, _, he⟩
      · rw [he] at hkind
        cases hkind
      · rw [he] at hkind
        cases hkind
    · exact Or.inl he
    · exact Or.inr he
  · intro h
    rcases h with he | he
    · rcases Builder.mem_pairEdges.mp he with ⟨x, y, _, _, heq⟩
      exact ⟨Or.inl (Or.inr he), by rw [heq]; rfl⟩
    · rcases List.mem_map.mp he with ⟨entry, _, heq⟩
      exact ⟨Or.inr he, by rw [← heq]; rfl⟩

section Model

variable {facts : Facts} (t : Builder.Trace facts) {rows : List (String × List LinkReport)}
  (h : Builder.Tabulates rows t.tables)

include h

theorem nvlinkBetween_iff {a b : String} (ha : a ≠ Builder.kSwitchGroup)
    (hb : b ≠ Builder.kSwitchGroup) :
    NvlinkBetween t.model a b <->
      (Builder.HasLinks rows a ∨ Builder.HasLinks rows b) ∧
        (Builder.HasLinks rows a -> Builder.Reports rows a b) ∧
        (Builder.HasLinks rows b -> Builder.Reports rows b a) := by
  rw [← h.joined_iff]
  constructor
  · intro hedge
    rcases hedge with ⟨e, he, hkind, hends⟩
    rcases (mem_model_nvlink t).mp ⟨he, hkind⟩ with he | he
    · exact ⟨e, he, hends⟩
    · rcases List.mem_map.mp he with ⟨entry, _, rfl⟩
      rcases hends with ⟨_, hto⟩ | ⟨_, hto⟩
      · exact absurd hto.symm hb
      · exact absurd hto.symm ha
  · intro hedge
    rcases hedge with ⟨e, he, hends⟩
    rcases (mem_model_nvlink t).mpr (Or.inl he) with ⟨hmem, hkind⟩
    exact ⟨e, hmem, hkind, hends⟩

theorem nvlinkTo_switch_iff (hrows : (rows.map Prod.fst).Nodup) {keys : List String}
    (hwithin : Builder.TablesWithin keys t.tables) (hkeys : Builder.kSwitchGroup ∉ keys)
    (a : String) :
    NvlinkTo t.model a Builder.kSwitchGroup <-> Builder.Switched rows a := by
  rw [← h.switched_iff hrows]
  constructor
  · intro hedge
    rcases hedge with ⟨e, he, hkind, hfrom, hto⟩
    rcases (mem_model_nvlink t).mp ⟨he, hkind⟩ with he | he
    · rcases Builder.mem_pairEdges.mp he with ⟨x, y, hpair, _, rfl⟩
      change y = Builder.kSwitchGroup at hto
      have hy := (hwithin.pairs _ (OrdMap.mem_keys.mpr hpair)).2
      change y ∈ keys at hy
      rw [hto] at hy
      exact absurd hy hkeys
    · exact ⟨e, he, hfrom⟩
  · intro hedge
    rcases hedge with ⟨e, he, hfrom⟩
    rcases (mem_model_nvlink t).mpr (Or.inr he) with ⟨hmem, hkind⟩
    refine ⟨e, hmem, hkind, hfrom, ?_⟩
    rcases List.mem_map.mp he with ⟨entry, _, rfl⟩
    rfl

end Model

/-!
## The links of the records
-/

/-- The groups join different GPUs of the capture. -/
def Listed (gpus : StringSet) (groups : Groups) : Prop :=
  forall key, key ∈ groups.keys -> (ofLex key).1 ≠ (ofLex (ofLex key).2).1 ∧
    gpus.contains (ofLex key).1 = true ∧ gpus.contains (ofLex (ofLex key).2).1 = true

theorem Listed.addCopy {py : Python} {gpus : StringSet} {groups groups' : Groups}
    {index : Nat} {record params : List (String × Json)} (h : Listed gpus groups)
    (hadd : addCopy py gpus groups index record params = .ok groups') :
    Listed gpus groups' := by
  unfold Links.addCopy at hadd
  dsimp only at hadd
  split at hadd
  · split at hadd
    · cases hadd
    · simp only [Fallible.bind_eq_ok] at hadd
      rcases hadd with ⟨concurrency, _, size, _, hadd⟩
      split_ifs at hadd with hsame hlisted
      · injection hadd with hadd
        rw [← hadd]
        exact h
      · split at hadd
        · rcases Fallible.bind_eq_ok.mp hadd with ⟨finite, _, hadd⟩
          split_ifs at hadd
          unfold pool at hadd
          dsimp only at hadd
          split_ifs at hadd
          injection hadd with hadd
          rw [← hadd]
          intro key hkey
          rcases OrdMap.mem_keys_insert.mp hkey with hkey | hkey
          · rw [hkey]
            rw [Bool.not_eq_true, Bool.not_eq_false', Bool.and_eq_true] at hlisted
            exact ⟨hsame, hlisted.1, hlisted.2⟩
          · exact h key hkey
        · cases hadd
  · cases hadd

theorem Listed.addRecord {py : Python} {gpus : StringSet} {groups groups' : Groups}
    {record : Json × Nat} (h : Listed gpus groups)
    (hadd : addRecord py gpus groups record = .ok groups') : Listed gpus groups' := by
  unfold Links.addRecord at hadd
  split at hadd
  · split_ifs at hadd with hbench
    · injection hadd with hadd
      rw [← hadd]
      exact h
    · dsimp only at hadd
      split_ifs at hadd with hdirection
      · injection hadd with hadd
        rw [← hadd]
        exact h
      · exact h.addCopy hadd
  · cases hadd

theorem Listed.foldlM {py : Python} {gpus : StringSet} {records : List (Json × Nat)}
    {groups groups' : Groups} (h : Listed gpus groups)
    (hadd : records.foldlM (Links.addRecord py gpus) groups = .ok groups') :
    Listed gpus groups' := by
  induction records generalizing groups with
  | nil =>
      injection hadd with hadd
      rw [← hadd]
      exact h
  | cons record rest ih =>
      rw [List.foldlM_cons, Fallible.bind_eq_ok] at hadd
      rcases hadd with ⟨next, hnext, hadd⟩
      exact ih (h.addRecord hnext) hadd

/-- A measured link joins two different GPUs of the capture and has the kind of their pair. -/
theorem link_of_linksFromRecords {py : Python} {records : List Json} {nvml : Option Json}
    {links : List Link} (hlinks : linksFromRecords py records nvml = .ok links) {link : Link}
    (hlink : link ∈ links) :
    exists gpus pairs, gpusAndNvlinks py nvml = .ok (gpus, pairs) ∧
      link.kind = kindOf pairs link.src link.dst ∧ link.src ≠ link.dst ∧
      gpus.contains link.src = true ∧ gpus.contains link.dst = true := by
  unfold linksFromRecords at hlinks
  rw [Fallible.bind_eq_ok] at hlinks
  rcases hlinks with ⟨⟨gpus, pairs⟩, hgpus, hlinks⟩
  rw [Fallible.bind_eq_ok] at hlinks
  rcases hlinks with ⟨groups, hgroups, hlinks⟩
  have hempty : Listed gpus (OrdMap.empty : Groups) := by
    intro key hkey
    cases hkey
  have hlisted := hempty.foldlM hgroups
  rcases Fallible.forall₂_mem_right (Fallible.mapM_eq_ok.mp hlinks) hlink with
    ⟨entry, hentry, hto⟩
  unfold toLink at hto
  dsimp only at hto
  split_ifs at hto
  injection hto with hto
  rw [← hto]
  exact ⟨gpus, pairs, hgpus, rfl, hlisted entry.1 (List.mem_map_of_mem hentry)⟩

/-!
## Where the two readings agree
-/

/--
Both GPUs are on switches, or neither reports a link to the other, or every one of
them with an array of NVLinks does.
-/
def SidesAgree (rows : List (String × List LinkReport)) (a b : String) : Prop :=
  (Builder.Switched rows a ∧ Builder.Switched rows b) ∨
    (¬ Builder.Reports rows a b ∧ ¬ Builder.Reports rows b a) ∨
    ((Builder.HasLinks rows a -> Builder.Reports rows a b) ∧
      (Builder.HasLinks rows b -> Builder.Reports rows b a))

theorem hasLinks_of_reports {rows : List (String × List LinkReport)} {a b : String}
    (h : Builder.Reports rows a b) : Builder.HasLinks rows a := by
  rcases h with ⟨reports, hlookup, _⟩
  exact ⟨reports, hlookup⟩

theorem kindOf_eq_nvlink {pairs : PairSet} {a b : String} :
    kindOf pairs a b = "nvlink" <-> pairs.contains (toLex (a, b)) = true := by
  unfold kindOf
  split_ifs with h
  · simp [h]
  · simp [h]

theorem readings_agree_iff {rows : List (String × List LinkReport)} (a b : String) :
    ((Builder.Reports rows a b ∨ Builder.Reports rows b a ∨
        (Builder.Switched rows a ∧ Builder.Switched rows b)) <->
      ((Builder.HasLinks rows a ∨ Builder.HasLinks rows b) ∧
          (Builder.HasLinks rows a -> Builder.Reports rows a b) ∧
          (Builder.HasLinks rows b -> Builder.Reports rows b a)) ∨
        (Builder.Switched rows a ∧ Builder.Switched rows b)) <->
      SidesAgree rows a b := by
  have hab : Builder.Reports rows a b -> Builder.HasLinks rows a := hasLinks_of_reports
  have hba : Builder.Reports rows b a -> Builder.HasLinks rows b := hasLinks_of_reports
  unfold SidesAgree
  tauto

/-- The sets of a capture whose nvml.json is valid. -/
theorem gpusAndNvlinks_valid {env : Schema.Env}
    (hregex : forall s, env.regexSearch Schema.busIdPattern s = true ->
      Schema.isBusId s = true)
    {py : Python} (hlower : forall s, Schema.isBusId s = true -> py.lower s = s)
    {facts : Facts} (hvalid : Schema.validate env Schema.nvml facts.nvml = [])
    (hremotes : Builder.RemotesIn (Builder.gpuIds facts) (Builder.gpuDocs facts)) :
    exists s, gpusAndNvlinks py (some facts.nvml) = .ok (s.buses, nvlinked s) ∧
      Collected (Builder.gpuIds facts) (rowsOf (Builder.gpuDocs facts))
        ⟨OrdMap.empty, OrdMap.empty, OrdMap.empty⟩ s ∧
      (forall g, g ∈ Builder.gpuDocs facts -> GpuDoc g) ∧
      forall id, id ∈ Builder.gpuIds facts -> Schema.isBusId id = true := by
  rcases Builder.gpus_of_accepts ⟨"", hvalid⟩ with ⟨gs, hget, hall⟩
  have hobject : facts.nvml.isObject = true := by
    cases hnvml : facts.nvml with
    | obj fields => rfl
    | _ =>
        rw [hnvml] at hget
        cases hget
  have hdocs : Builder.gpuDocs facts = gs := by
    unfold Builder.gpuDocs
    rw [if_pos hobject, hget]
    rfl
  have hbus : forall id, id ∈ Builder.gpuIds facts -> Schema.isBusId id = true := by
    intro id hid
    unfold Builder.gpuIds idsOf at hid
    rw [hdocs] at hid
    rcases List.mem_filterMap.mp hid with ⟨g, hg, hid⟩
    rcases (hall g hg).1.busId with ⟨s, hs⟩
    rw [Builder.busIdOf_eq hs, Option.some_inj] at hid
    rw [← hid]
    exact hregex s ((hall g hg).2 s hs)
  have hgpus : forall g, g ∈ Builder.gpuDocs facts -> GpuDoc g := by
    rw [hdocs]
    exact fun g hg => (hall g hg).1
  rcases foldlM_addGpu hgpus (fun id hid => hlower id (hbus id hid))
    (fun g hg ls hls l hl remote hremote =>
      hlower remote (hbus remote (hremotes g hg ls hls l hl remote hremote)))
    ⟨OrdMap.empty, OrdMap.empty, OrdMap.empty⟩ with ⟨s, hs, hcollected⟩
  refine ⟨s, ?_, hcollected, hgpus, hbus⟩
  rw [hdocs] at hs
  unfold gpusAndNvlinks
  rw [Option.bind_some, hget]
  show ((gs.foldlM (addGpu py) _ : Except Failure NvLinks) >>= fun s => _) = _
  rw [hs]
  rfl

/--
For each pair of GPUs, the converter and the builder agree exactly when the
reports of the two sides do; the kind of every measured link is that of its pair.
-/
theorem linksFromRecords_agrees_iff {env : Schema.Env}
    (hregex : forall s, env.regexSearch Schema.busIdPattern s = true ->
      Schema.isBusId s = true)
    {py : Python} (hlower : forall s, Schema.isBusId s = true -> py.lower s = s)
    {facts : Facts} (hvalid : Schema.validate env Schema.nvml facts.nvml = [])
    (hids : (Builder.gpuIds facts).Nodup)
    (hremotes : Builder.RemotesIn (Builder.gpuIds facts) (Builder.gpuDocs facts))
    {model : Model} (hmodel : Builder.build facts = .ok model) :
    exists gpus pairs, gpusAndNvlinks py (some facts.nvml) = .ok (gpus, pairs) ∧
      (forall records links, linksFromRecords py records (some facts.nvml) = .ok links ->
        forall link, link ∈ links -> link.src ∈ Builder.gpuIds facts ∧
          link.dst ∈ Builder.gpuIds facts ∧ link.src ≠ link.dst ∧
          link.kind = kindOf pairs link.src link.dst) ∧
      forall a b, a ∈ Builder.gpuIds facts -> b ∈ Builder.gpuIds facts -> a ≠ b ->
        ((kindOf pairs a b = "nvlink" <->
            NvlinkBetween model a b ∨ (NvlinkTo model a Builder.kSwitchGroup ∧
              NvlinkTo model b Builder.kSwitchGroup)) <->
          SidesAgree (rowsOf (Builder.gpuDocs facts)) a b) := by
  rcases gpusAndNvlinks_valid hregex hlower hvalid hremotes with
    ⟨s, hs, hcollected, hdocs, hbus⟩
  have hrows := hids.sublist (Builder.rowsOf_sublist (Builder.gpuDocs facts))
  have hbuses : forall k, s.buses.contains k = true -> k ∈ Builder.gpuIds facts := by
    intro k hk
    rcases (hcollected.buses k).mp hk with hempty | hk
    · cases hempty
    · exact hk
  rcases Builder.build_eq_ok.mp hmodel with ⟨t, rfl⟩
  have hgpus : t.gpus = Builder.gpuDocs facts := t.gpuDocs_eq.symm
  have htables := Builder.linkTables_ok hdocs hremotes
  have ht := t.tables_eq
  rw [hgpus, ← t.gpuIds_eq, htables] at ht
  injection ht with ht
  have htab := Builder.tabulates_foldl hrows
  have hwithin := Builder.rowsOf_within (fun _ hid => hid) hremotes
  rw [ht] at htab hwithin
  have hswitch : Builder.kSwitchGroup ∉ Builder.gpuIds facts := by
    intro hmem
    have hbad := hbus _ hmem
    revert hbad
    decide
  refine ⟨s.buses, nvlinked s, hs, ?_, ?_⟩
  · intro records links hlinks link hlink
    rcases link_of_linksFromRecords hlinks hlink with
      ⟨gpus, pairs, hgpus, hkind, hne, hsrc, hdst⟩
    rw [hs] at hgpus
    injection hgpus with hgpus
    rw [Prod.mk.injEq] at hgpus
    rw [← hgpus.1] at hsrc hdst
    rw [← hgpus.2] at hkind
    exact ⟨hbuses _ hsrc, hbuses _ hdst, hne, hkind⟩
  · intro a b ha hb hab
    have hanot : a ≠ Builder.kSwitchGroup := fun h => hswitch (h ▸ ha)
    have hbnot : b ≠ Builder.kSwitchGroup := fun h => hswitch (h ▸ hb)
    rw [kindOf_eq_nvlink, hcollected.nvlinked_iff hrows hab,
      nvlinkBetween_iff t htab hanot hbnot, nvlinkTo_switch_iff t htab hrows hwithin hswitch,
      nvlinkTo_switch_iff t htab hrows hwithin hswitch]
    exact readings_agree_iff a b

/-- Python on texts in lower case and on one integer sample. -/
def plainPython : Python :=
  { str := fun _ => ""
    lower := fun s => s
    bwMbps := fun samples =>
      match samples with
      | [.int n] => n * 1000
      | _ => 0 }

theorem busIdEnv_isBusId (s : String)
    (h : Builder.busIdEnv.regexSearch Schema.busIdPattern s = true) :
    Schema.isBusId s = true := by
  change (Schema.busIdPattern == Schema.busIdPattern && Schema.isBusId s) = true at h
  simpa using h

theorem linksFromRecords_pairFacts :
    exists gpus pairs model,
      gpusAndNvlinks plainPython (some Builder.pairFacts.nvml) = .ok (gpus, pairs) ∧
      Builder.build Builder.pairFacts = .ok model ∧
      ((kindOf pairs "0000:01:00.0" "0000:02:00.0" = "nvlink" <->
          NvlinkBetween model "0000:01:00.0" "0000:02:00.0" ∨
            (NvlinkTo model "0000:01:00.0" Builder.kSwitchGroup ∧
              NvlinkTo model "0000:02:00.0" Builder.kSwitchGroup)) <->
        SidesAgree (rowsOf (Builder.gpuDocs Builder.pairFacts))
          "0000:01:00.0" "0000:02:00.0") := by
  rcases Builder.pairFacts_consistent.closed Builder.pairFacts_keys
    Builder.pairFacts_validated.documents Builder.pairFacts_parents with ⟨model, hmodel, _⟩
  rcases linksFromRecords_agrees_iff busIdEnv_isBusId
    (fun _ _ => rfl : forall s, Schema.isBusId s = true -> plainPython.lower s = s)
    (by decide) (by decide) Builder.pairFacts_consistent.remotes hmodel with
    ⟨gpus, pairs, hgpus, _, hall⟩
  exact ⟨gpus, pairs, model, hgpus, hmodel,
    hall "0000:01:00.0" "0000:02:00.0" (by decide) (by decide) (by decide)⟩

/-- A GPU whose array of NVLinks is empty. -/
def silentGpu : Json :=
  .obj [("bus_id", .str "0000:02:00.0"), ("cc_major", .int 9), ("cc_minor", .int 0),
    ("cuda_ordinal", .int 1), ("memory_bytes", .int 80), ("name", .str "H100"),
    ("nvlinks", .arr [])]

/-- One GPU reports an active link that the other, which reports its links, does not. -/
def oneSidedFacts : Facts :=
  { Builder.pairFacts with
    nvml := .obj
      [("gpus", .arr [Builder.pairGpu "0000:01:00.0" "0000:02:00.0" 0, silentGpu]),
       ("p2p", .arr []), ("schema", .int 1)] }

theorem oneSidedFacts_remotes :
    Builder.RemotesIn (Builder.gpuIds oneSidedFacts) (Builder.gpuDocs oneSidedFacts) := by
  intro g hg ls hls l hl far hfar
  have hgpus : Builder.gpuDocs oneSidedFacts =
      [Builder.pairGpu "0000:01:00.0" "0000:02:00.0" 0, silentGpu] := rfl
  rw [hgpus, List.mem_cons, List.mem_singleton] at hg
  rcases hg with rfl | rfl
  · rw [Builder.pairGpu_remotes hls hl hfar]
    decide
  · have hlinks : linksOf silentGpu = some [] := rfl
    rw [hlinks, Option.some_inj] at hls
    rw [← hls] at hl
    cases hl

/-- One measured copy from the first GPU to the second. -/
def oneCopy : Json :=
  .obj [("bench", .str "p2p_copy"),
    ("devices", .obj [("dst_bus", .str "0000:02:00.0"), ("src_bus", .str "0000:01:00.0")]),
    ("params", .obj [("bytes", .int 1048576), ("concurrency", .int 1),
      ("direction", .str "0->1")]),
    ("samples", .arr [.int 25]), ("unit", .str "GB/s")]

/-- The converter sees an NVLink where the builder puts none. -/
theorem linksFromRecords_oneSidedFacts :
    Schema.validate Builder.busIdEnv Schema.nvml oneSidedFacts.nvml = [] ∧
      (Builder.gpuIds oneSidedFacts).Nodup ∧
      Builder.RemotesIn (Builder.gpuIds oneSidedFacts) (Builder.gpuDocs oneSidedFacts) ∧
      linksFromRecords plainPython [oneCopy] (some oneSidedFacts.nvml) =
        .ok [⟨"0000:01:00.0", "0000:02:00.0", "nvlink", 25000, 1048576, 1, 1⟩] ∧
      exists model, Builder.build oneSidedFacts = .ok model ∧
        forall e, e ∈ model.edges -> e.kind ≠ EdgeKind.nvlink := by
  have hbuild : (match Builder.build oneSidedFacts with
      | .ok model => model.edges.all fun e => decide (e.kind ≠ EdgeKind.nvlink)
      | .error _ => false) = true := by decide
  refine ⟨by decide, by decide, oneSidedFacts_remotes, by decide +kernel, ?_⟩
  split at hbuild
  · rename_i model hmodel
    refine ⟨model, hmodel, ?_⟩
    intro e he
    exact of_decide_eq_true (List.all_eq_true.mp hbuild e he)
  · cases hbuild

end Links
end Dev
end Ostia

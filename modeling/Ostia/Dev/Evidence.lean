import Mathlib.Data.List.Dedup
import Mathlib.Data.Rat.Lemmas
import Mathlib.Algebra.Order.Ring.Rat
import Mathlib.Algebra.Order.BigOperators.Group.List
import Ostia.Foundation.Double
import Ostia.Foundation.Fallible
import Ostia.Foundation.OrdMap
import Ostia.Dev.Text
import Ostia.Dev.Value

/-!
# Evidence of the transport

The evidence that a gate workload leaves behind: the lanes of the endpoint, the facts that
the program prints and the traffic that each InfiniBand port and each NVLink carried during
the run, as the difference of two snapshots of their counters.  The check names what is
missing from it.

The difference takes a counter that the first snapshot lacks for one that stood at zero, and
the check takes a program that reports no bytes for one that moved none.
-/

namespace Ostia
namespace Dev
namespace Evidence

open Foundation Text

/-!
## Facts
-/

def IB_TLS : List String := ["rc_mlx5", "dc_mlx5", "rc_verbs", "ud_mlx5", "ud_verbs"]

def NVLINK_WORKLOADS : List String := ["p2p_copy", "pipelining", "batching"]

def RDMA_WORKLOADS : List String := ["rdma_put", "gdr_stream"]

structure Lane where
  tl : String
  device : String
deriving DecidableEq, Repr

/-- The interpreter: its decimal digits, and how it prints lanes and counters. -/
structure Python where
  decimal : Char -> Option Nat
  reprLanes : List Lane -> String
  reprCounts : List (String × Int) -> String

/-- Digits with single underscores between them; the flag says that a digit was just read. -/
def numeral (decimal : Char -> Option Nat) : Bool -> List Char -> Option (List Nat)
  | afterDigit, [] => if afterDigit then some [] else none
  | afterDigit, c :: rest =>
      match decimal c with
      | some d => (numeral decimal true rest).map (d :: ·)
      | none => if afterDigit && c == '_' then numeral decimal false rest else none

/-- The integer a text spells; the interpreter reads no more than 4300 digits. -/
def int (py : Python) (s : String) : Except Exn Int :=
  let (negative, digits) :=
    match (strip s).toList with
    | '-' :: rest => (true, rest)
    | '+' :: rest => (false, rest)
    | rest => (false, rest)
  match numeral py.decimal false digits with
  | none => .error (.valueError "invalid literal for int() with base 10")
  | some ds =>
      if 4300 < ds.length then
        .error (.valueError "Exceeds the limit for integer string conversion")
      else
        let n : Int := ds.foldl (fun n d => 10 * n + d) 0
        .ok (if negative then -n else n)

/-- The parts of an item before and after its first equals sign. -/
def keyValue (item : String) : String × String :=
  (String.ofList (item.toList.takeWhile (· != '=')),
    String.ofList ((item.toList.dropWhile (· != '=')).drop 1))

def factsOfLine (facts : OrdMap String String) (line : String) : OrdMap String String :=
  if startsWith line "evidence:" then
    (words (dropStart line "evidence:")).foldl
      (fun facts item => facts.insert (keyValue item).1 (keyValue item).2) facts
  else facts

/-- What the program prints as evidence; of two items with one key the last stands. -/
def programFacts (text : String) : OrdMap String String :=
  (splitlines text).foldl factsOfLine OrdMap.empty

/-!
## Lanes
-/

/-- The nonempty run of characters at the front of a text, and what follows it. -/
def run1 (p : Char -> Bool) (cs : List Char) : Option (List Char × List Char) :=
  match cs.takeWhile p with
  | [] => none
  | ds => some (ds, cs.dropWhile p)

/-- What follows a text at the front of another. -/
def lit (pre cs : List Char) : Option (List Char) :=
  if pre.isPrefixOf cs then some (cs.drop pre.length) else none

def isTlChar (c : Char) : Bool := c.isAlphanum || c == '_'

/--
The lane pattern at the front of a text: its transport, its device and what follows.  Each
run of the pattern ends before a character that the run does not take, so the longest one
is the only one.
-/
def laneAt (py : Python) (cs : List Char) : Option (List Char × List Char × List Char) := do
  let digit := fun c => (py.decimal c).isSome
  let cs <- lit ("lane[".toList) cs
  let (_, cs) <- run1 digit cs
  let cs <- lit ("]:".toList) cs
  let (_, cs) <- run1 isSpace cs
  let (_, cs) <- run1 digit cs
  let cs <- lit (":".toList) cs
  let (tl, cs) <- run1 isTlChar cs
  let cs <- lit ("/".toList) cs
  let (device, cs) <- run1 (fun c => !isSpace c) cs
  pure (tl, device, cs)

/-- All matches of the lane pattern, from left to right; the fuel bounds what is left. -/
def findLanes (py : Python) : Nat -> List Char -> List (List Char × List Char)
  | 0, _ => []
  | _ + 1, [] => []
  | fuel + 1, c :: cs =>
      match laneAt py (c :: cs) with
      | some (tl, device, rest) => (tl, device) :: findLanes py fuel rest
      | none => findLanes py fuel cs

/-- A device without the number after its last point. -/
def dropIndex (py : Python) (device : List Char) : List Char :=
  let digits := device.reverse.takeWhile fun c => (py.decimal c).isSome
  match device.reverse.dropWhile fun c => (py.decimal c).isSome with
  | '.' :: front => if digits = [] then device else front.reverse
  | _ => device

def ucxLanes (py : Python) (text : String) : List Lane :=
  (findLanes py (text.toList.length + 1) text.toList).foldl
    (fun lanes m =>
      let lane : Lane := ⟨String.ofList m.1, String.ofList (dropIndex py m.2)⟩
      if lane ∈ lanes then lanes else lanes ++ [lane]) []

/-!
## Counters
-/

/-- Counters by name, in the order in which they were read. -/
structure Counters where
  entries : List (String × Int)
  nodup : (entries.map Prod.fst).Nodup

namespace Counters

def lookup (k : String) : List (String × Int) -> Option Int
  | [] => none
  | e :: rest => if e.1 = k then some e.2 else lookup k rest

def get? (c : Counters) (k : String) : Option Int := lookup k c.entries

def values (c : Counters) : List Int := c.entries.map Prod.snd

end Counters

structure Snapshot where
  nic : Counters
  nvlink : Counters

/-- How far a counter of the second snapshot rose; one that the first lacks stood at zero. -/
def rise (before : Counters) (e : String × Int) : Int := e.2 - (before.get? e.1).getD 0

def deltaEntries (before after : Counters) : List (String × Int) :=
  after.entries.filterMap fun e => if rise before e > 0 then some (e.1, rise before e) else none

theorem deltaEntries_eq (before after : Counters) :
    deltaEntries before after =
      (after.entries.filter fun e => decide (rise before e > 0)).map
        fun e => (e.1, rise before e) := by
  unfold deltaEntries
  generalize after.entries = es
  induction es with
  | nil => rfl
  | cons e es ih =>
      rw [List.filterMap_cons, List.filter_cons]
      by_cases h : rise before e > 0
      · simp only [h, if_true, decide_true]
        rw [ih, List.map_cons]
      · simp only [h, if_false, decide_false, Bool.false_eq_true]
        exact ih

theorem deltaEntries_keys (before after : Counters) :
    (deltaEntries before after).map Prod.fst =
      (after.entries.filter fun e => decide (rise before e > 0)).map Prod.fst := by
  rw [deltaEntries_eq, List.map_map]
  rfl

/-- The traffic between two snapshots, by counter; counters that did not rise are left out. -/
def delta (before after : Counters) : Counters where
  entries := deltaEntries before after
  nodup := by
    rw [deltaEntries_keys]
    exact after.nodup.sublist (List.filter_sublist.map Prod.fst)

/-- The evidence file of a workload. -/
structure Ev where
  workload : String
  lanes : List Lane
  program : OrdMap String String
  nicBytes : Counters
  nvlinkBytes : Counters

def build (py : Python) (workload : String) (before after : Snapshot) (output : String) :
    Ev where
  workload := workload
  lanes := ucxLanes py output
  program := programFacts output
  nicBytes := delta before.nic after.nic
  nvlinkBytes := delta before.nvlink after.nvlink

/-- Add the bytes of a link to those of its GPU. -/
def addTo (gpu : String) (n : Int) : List (String × Int) -> List (String × Int)
  | [] => [(gpu, n)]
  | e :: rest => if e.1 = gpu then (gpu, e.2 + n) :: rest else e :: addTo gpu n rest

/-- The GPU of a link, named before the first slash. -/
def gpuOf (key : String) : String := String.ofList (key.toList.takeWhile (· != '/'))

def perGpu (nvlink : List (String × Int)) : List (String × Int) :=
  nvlink.foldl (fun out e => addTo (gpuOf e.1) e.2 out) []

/-!
## The check
-/

/-- An integer over a power of two, as a double. -/
def trueDiv (a : Int) (k : Nat) : Except Exn Rat :=
  if 2 ^ (1024 + k) ≤ (roundInt a).natAbs then .error .overflowError
  else .ok (roundInt a / 2 ^ k : Rat)

/-- The amounts that reach a share; it is computed for each of them. -/
def atLeast (share : Except Exn Rat) : List Int -> Except Exn (List Int)
  | [] => .ok []
  | n :: rest => do
      let s <- share
      let kept <- atLeast share rest
      pure (if s ≤ n then n :: kept else kept)

/-- The bytes that the program says it moved. -/
def moved (py : Python) (facts : OrdMap String String) : Except Exn Int :=
  match facts.find? "bytes" with
  | some text => int py text
  | none => .ok 0

def mode (w : String) (facts : OrdMap String String) : String :=
  (facts.find? "mode").getD (if w ∈ RDMA_WORKLOADS then "rails" else "nvlink")

/-- The workloads that go through the NICs. -/
def overNics (w : String) (facts : OrdMap String String) : Bool :=
  w ∈ RDMA_WORKLOADS || (w == "dual_link" && mode w facts == "rails")

/-- The InfiniBand devices of the lanes. -/
def ibDevices (lanes : List Lane) : List String :=
  ((lanes.filter fun lane => lane.tl ∈ IB_TLS).map Lane.device).dedup.mergeSort (· ≤ ·)

def laneProblem (py : Python) (ev : Ev) : List String :=
  if ibDevices ev.lanes = [] then
    ["no InfiniBand lane in the endpoint (lanes: " ++ py.reprLanes ev.lanes ++ ")"]
  else []

def memoryProblem (ev : Ev) : List String :=
  if ev.program.find? "memory_type" = some "cuda" then []
  else ["registered memory type is " ++ (ev.program.find? "memory_type").getD "None" ++
    ", not cuda"]

def nicProblem (py : Python) (ev : Ev) (bytes : Int) : Except Exn (List String) :=
  let carried := ev.nicBytes.values.mergeSort (· ≤ ·)
  if ev.workload = "dual_link" then do
    let full <- atLeast (trueDiv bytes 2) carried
    pure (if full.length < 2 then
      ["traffic did not use two NICs (per-NIC bytes: " ++ py.reprCounts ev.nicBytes.entries ++ ")"]
    else [])
  else do
    let half <- trueDiv bytes 1
    pure (if (carried.sum : Rat) < half ∨ carried = [] then
      ["NIC traffic " ++ toString carried.sum ++ " B is below half of " ++ toString bytes
        ++ " B moved"]
    else [])

def checkNics (py : Python) (ev : Ev) (bytes : Int) : Except Exn (List String) := do
  let traffic <- nicProblem py ev bytes
  pure (laneProblem py ev ++ memoryProblem ev ++ traffic)

def accessProblem (ev : Ev) : List String :=
  if ev.program.find? "peer_access" = some "1" then []
  else ["the program did not report peer access between the GPUs"]

/-- The GPU that the data leaves. -/
def sourceGpu (facts : OrdMap String String) : String := (facts.find? "src").getD "0"

def linkProblem (py : Python) (ev : Ev) (bytes : Int) : Except Exn (List String) :=
  let total := ev.nvlinkBytes.values.sum
  if ev.workload = "dual_link" then do
    let peers := (perGpu ev.nvlinkBytes.entries).filter fun e => e.1 != sourceGpu ev.program
    let full <- atLeast (trueDiv bytes 2) (peers.map Prod.snd)
    pure (if full.length < 2 then
      ["traffic did not use two NVLink paths (per GPU: " ++ py.reprCounts peers ++ ")"]
    else [])
  else do
    let half <- trueDiv bytes 1
    pure (if (total : Rat) < half ∨ total = 0 then
      ["NVLink traffic " ++ toString total ++ " B is below half of " ++ toString bytes ++
        " B moved"]
    else [])

def checkLinks (py : Python) (ev : Ev) (bytes : Int) : Except Exn (List String) := do
  let traffic <- linkProblem py ev bytes
  pure (accessProblem ev ++ traffic)

/-- The problems with the evidence; none when it shows the capability under test. -/
def check (py : Python) (ev : Ev) : Except Exn (List String) := do
  let bytes <- moved py ev.program
  if overNics ev.workload ev.program then checkNics py ev bytes
  else if ev.workload ∈ NVLINK_WORKLOADS ∨ ev.workload = "dual_link" then checkLinks py ev bytes
  else if ev.workload = "tcp_put" then
    pure (if ev.lanes.any fun lane => lane.tl == "tcp" then []
      else ["no tcp lane in the endpoint (lanes: " ++ py.reprLanes ev.lanes ++ ")"])
  else pure ["no evidence rule for workload '" ++ ev.workload ++ "'"]

/-!
## Failing closed
-/

/-- The counters of both snapshots that rose, and by how much. -/
def increases (before after : Counters) : List (String × Int) :=
  after.entries.filterMap fun e =>
    match before.get? e.1 with
    | some b => if 0 < e.2 - b then some (e.1, e.2 - b) else none
    | none => none

/-- The traffic of a GPU over all its links. -/
def gpuBytes (traffic : List (String × Int)) (gpu : String) : Int :=
  ((traffic.filter fun e => decide (gpuOf e.1 = gpu)).map Prod.snd).sum

/--
The traffic accounts for the bytes: half of them, or for two paths a quarter on each of two
NICs, which an InfiniBand port stands for, or of two GPUs apart from the source.
-/
def Accounts (w : String) (facts : OrdMap String String) (nic nvlink : List (String × Int))
    (bytes : Int) : Prop :=
  if overNics w facts then
    if w = "dual_link" then
      exists p, p ∈ nic ∧ exists q, q ∈ nic ∧ p.1 ≠ q.1 ∧ bytes ≤ 4 * p.2 ∧ bytes ≤ 4 * q.2
    else bytes ≤ 2 * (nic.map Prod.snd).sum
  else
    if w = "dual_link" then
      exists g h, g ≠ h ∧ g ≠ sourceGpu facts ∧ h ≠ sourceGpu facts ∧
        bytes ≤ 4 * gpuBytes nvlink g ∧ bytes ≤ 4 * gpuBytes nvlink h
    else bytes ≤ 2 * (nvlink.map Prod.snd).sum

/--
Evidence without a problem comes from a program that reports a positive number of bytes and
from traffic that accounts for them, and a counter that the first snapshot lacks is no
traffic of the run.
-/
def FailsClosed (py : Python) (w : String) (before after : Snapshot) (output : String) : Prop :=
  (check py (build py w before after output) = .ok [] ->
    exists text bytes, (programFacts output).find? "bytes" = some text ∧
      int py text = .ok bytes ∧ 0 < bytes ∧
      Accounts w (programFacts output) (increases before.nic after.nic)
        (increases before.nvlink after.nvlink) bytes) ∧
  (forall e, e ∈ (build py w before after output).nicBytes.entries -> before.nic.get? e.1 ≠ none) ∧
  (forall e, e ∈ (build py w before after output).nvlinkBytes.entries ->
    before.nvlink.get? e.1 ≠ none)

/-- No counter that the first snapshot lacks reads above zero in the second. -/
def NoneAppears (before after : Counters) : Prop :=
  forall e, e ∈ after.entries -> before.get? e.1 = none -> e.2 ≤ 0

/-- The evidence apart from the traffic. -/
def Capability (w : String) (facts : OrdMap String String) (lanes : List Lane) : Prop :=
  if overNics w facts then
    (exists lane, lane ∈ lanes ∧ lane.tl ∈ IB_TLS) ∧ facts.find? "memory_type" = some "cuda"
  else facts.find? "peer_access" = some "1"

/-- How many paths have to reach their share. -/
def needed (w : String) : Nat := if w = "dual_link" then 2 else 1

/-- The share of a path, as the number of times the bytes are halved. -/
def halvings (w : String) : Nat := if w = "dual_link" then 2 else 1

/-- The sum of the traffic as one path, when there is any. -/
def onePath (traffic : List (String × Int)) : List Int :=
  if traffic = [] then [] else [(traffic.map Prod.snd).sum]

/-- What the NICs carried, path by path. -/
def nicPaths (w : String) (nic : List (String × Int)) : List Int :=
  if w = "dual_link" then nic.map Prod.snd else onePath nic

/-- What the NVLinks carried, path by path. -/
def linkPaths (w src : String) (nvlink : List (String × Int)) : List Int :=
  if w = "dual_link" then ((perGpu nvlink).filter fun e => e.1 != src).map Prod.snd
  else onePath nvlink

/-- What the paths that a workload tests carried. -/
def paths (w : String) (facts : OrdMap String String) (nic nvlink : List (String × Int)) :
    List Int :=
  if overNics w facts then nicPaths w nic else linkPaths w (sourceGpu facts) nvlink

/-- Enough paths carried their share of the bytes. -/
def Carried (w : String) (amounts : List Int) (bytes : Int) : Prop :=
  needed w ≤ (amounts.filter fun n => decide (bytes ≤ 2 ^ halvings w * n)).length

instance (w : String) (amounts : List Int) (bytes : Int) : Decidable (Carried w amounts bytes) :=
  inferInstanceAs (Decidable (_ ≤ _))

/-- The program reports bytes that the check can divide. -/
def Divisible (py : Python) (w : String) (facts : OrdMap String String) (bytes : Int) : Prop :=
  moved py facts = .ok bytes ∧ (roundInt bytes).natAbs < 2 ^ (1024 + halvings w)

/--
The runs on which neither default decides: no counter appears, and either something else is
missing or the bytes are positive and their rounding brings no path over its share.
-/
def Guarded (py : Python) (w : String) (before after : Snapshot) (output : String) : Prop :=
  let facts := programFacts output
  let amounts :=
    paths w facts (increases before.nic after.nic) (increases before.nvlink after.nvlink)
  NoneAppears before.nic after.nic ∧ NoneAppears before.nvlink after.nvlink ∧
    (¬ Capability w facts (ucxLanes py output) ∨ amounts.length < needed w ∨
      forall bytes, Divisible py w facts bytes -> 0 < bytes ∧
        (Carried w amounts (roundInt bytes) -> Carried w amounts bytes))

/-!
## Counters of both snapshots
-/

theorem Counters.lookup_of_mem {es : List (String × Int)} (h : (es.map Prod.fst).Nodup)
    {e : String × Int} (he : e ∈ es) : Counters.lookup e.1 es = some e.2 := by
  induction es with
  | nil => cases he
  | cons e' es ih =>
      rw [List.map_cons, List.nodup_cons] at h
      rw [Counters.lookup]
      rcases List.mem_cons.mp he with he | he
      · rw [he, if_pos rfl]
      · have hne : e'.1 ≠ e.1 := by
          intro heq
          apply h.1
          rw [heq]
          exact List.mem_map_of_mem he
        rw [if_neg hne]
        exact ih h.2 he

theorem Counters.mem_of_lookup {es : List (String × Int)} {k : String} {n : Int}
    (h : Counters.lookup k es = some n) : (k, n) ∈ es := by
  induction es with
  | nil => cases h
  | cons e es ih =>
      rw [Counters.lookup] at h
      split_ifs at h with he
      · rw [Option.some_inj] at h
        rw [← he, ← h]
        exact List.mem_cons_self
      · exact List.mem_cons_of_mem e (ih h)

theorem mem_deltaEntries {before after : Counters} {e : String × Int} :
    e ∈ deltaEntries before after <->
      exists v, (e.1, v) ∈ after.entries ∧ rise before (e.1, v) > 0 ∧
        e.2 = rise before (e.1, v) := by
  unfold deltaEntries
  rw [List.mem_filterMap]
  constructor
  · intro ⟨a, ha, he⟩
    split_ifs at he with hr
    rw [Option.some_inj] at he
    subst he
    exact ⟨a.2, ha, hr, rfl⟩
  · intro ⟨v, hv, hr, he⟩
    exists (e.1, v)
    constructor
    · exact hv
    · rw [if_pos hr, ← he]

theorem deltaEntries_pos {before after : Counters} {e : String × Int}
    (he : e ∈ deltaEntries before after) : 0 < e.2 := by
  rcases mem_deltaEntries.mp he with ⟨v, -, hr, heq⟩
  rw [heq]
  exact hr

/-- The traffic holds no counter that appears during the run exactly when none reads above zero. -/
theorem noneAppears_iff {before after : Counters} :
    (forall e, e ∈ (delta before after).entries -> before.get? e.1 ≠ none) <->
      NoneAppears before after := by
  constructor
  · intro h e he hnone
    by_contra hpos
    have hrise : rise before e = e.2 := by
      unfold rise
      rw [hnone, Option.getD_none, sub_zero]
    have hmem : e ∈ (delta before after).entries := by
      apply mem_deltaEntries.mpr
      exists e.2
      rw [hrise]
      exact ⟨he, not_le.mp hpos, rfl⟩
    exact h e hmem hnone
  · intro h e he hnone
    rcases mem_deltaEntries.mp he with ⟨v, hv, hr, -⟩
    have hle : v ≤ 0 := h _ hv hnone
    unfold rise at hr
    rw [hnone, Option.getD_none, sub_zero] at hr
    omega

theorem deltaEntries_eq_increases {before after : Counters} (h : NoneAppears before after) :
    deltaEntries before after = increases before after := by
  unfold deltaEntries increases
  apply List.filterMap_congr
  intro e he
  unfold rise
  cases hb : before.get? e.1 with
  | some b => rfl
  | none =>
      have hle := h e he hb
      rw [Option.getD_none, sub_zero, if_neg (not_lt.mpr hle)]

/-!
## Traffic by GPU
-/

theorem lookup_addTo (gpu : String) (n : Int) (out : List (String × Int)) (g : String) :
    Counters.lookup g (addTo gpu n out) =
      if g = gpu then some ((Counters.lookup gpu out).getD 0 + n) else Counters.lookup g out := by
  induction out with
  | nil =>
      rw [addTo, Counters.lookup]
      by_cases hg : g = gpu
      · simp [hg, Counters.lookup]
      · simp [hg, Ne.symm hg, Counters.lookup]
  | cons e out ih =>
      rw [addTo]
      by_cases he : e.1 = gpu
      · rw [if_pos he]
        by_cases hg : g = gpu
        · simp [hg, Counters.lookup, he]
        · simp [hg, Ne.symm hg, Counters.lookup, he]
      · rw [if_neg he, Counters.lookup, ih]
        by_cases hg : g = gpu
        · simp [hg, Counters.lookup, he]
        · simp [hg, Counters.lookup]

theorem mem_keys_addTo {gpu : String} {n : Int} {out : List (String × Int)} {g : String} :
    g ∈ (addTo gpu n out).map Prod.fst <-> g = gpu ∨ g ∈ out.map Prod.fst := by
  induction out with
  | nil => simp [addTo]
  | cons e out ih =>
      rw [addTo]
      split_ifs with he
      · simp [he]
      · rw [List.map_cons, List.mem_cons, ih, List.map_cons, List.mem_cons]
        tauto

theorem nodup_addTo {gpu : String} {n : Int} {out : List (String × Int)}
    (h : (out.map Prod.fst).Nodup) : ((addTo gpu n out).map Prod.fst).Nodup := by
  induction out with
  | nil => simp [addTo]
  | cons e out ih =>
      rw [List.map_cons, List.nodup_cons] at h
      rw [addTo]
      split_ifs with he
      · rw [List.map_cons, List.nodup_cons, ← he]
        exact h
      · rw [List.map_cons, List.nodup_cons]
        constructor
        · intro hmem
          rcases mem_keys_addTo.mp hmem with heq | hmem
          · exact he heq
          · exact h.1 hmem
        · exact ih h.2

theorem gpuBytes_cons (e : String × Int) (es : List (String × Int)) (g : String) :
    gpuBytes (e :: es) g = (if gpuOf e.1 = g then e.2 else 0) + gpuBytes es g := by
  unfold gpuBytes
  rw [List.filter_cons]
  by_cases h : gpuOf e.1 = g
  · simp [h]
  · simp [h]

/-- The fold adds to each GPU the bytes of its links. -/
theorem foldl_addTo (es out : List (String × Int)) (hnd : (out.map Prod.fst).Nodup) :
    ((es.foldl (fun out e => addTo (gpuOf e.1) e.2 out) out).map Prod.fst).Nodup ∧
      forall g, Counters.lookup g (es.foldl (fun out e => addTo (gpuOf e.1) e.2 out) out) =
        if exists e, e ∈ es ∧ gpuOf e.1 = g then
          some ((Counters.lookup g out).getD 0 + gpuBytes es g)
        else Counters.lookup g out := by
  induction es generalizing out with
  | nil =>
      constructor
      · exact hnd
      · intro g
        simp
  | cons e es ih =>
      rw [List.foldl_cons]
      rcases ih (addTo (gpuOf e.1) e.2 out) (nodup_addTo hnd) with ⟨hkeys, hlookup⟩
      constructor
      · exact hkeys
      · intro g
        rw [hlookup, lookup_addTo, gpuBytes_cons]
        by_cases hg : g = gpuOf e.1
        · subst hg
          by_cases hrest : exists e', e' ∈ es ∧ gpuOf e'.1 = gpuOf e.1
          · simp [hrest, add_assoc]
          · have hzero : gpuBytes es (gpuOf e.1) = 0 := by
              unfold gpuBytes
              rw [List.filter_eq_nil_iff.mpr]
              · rfl
              · intro e' he'
                rw [decide_eq_true_eq]
                exact fun heq => hrest ⟨e', he', heq⟩
            simp [hrest, hzero]
        · have hiff : (exists e', e' ∈ e :: es ∧ gpuOf e'.1 = g) <->
              exists e', e' ∈ es ∧ gpuOf e'.1 = g := by
            simp [Ne.symm hg]
          simp only [hiff, if_neg hg, if_neg (Ne.symm hg), zero_add]

theorem perGpu_nodup (es : List (String × Int)) : ((perGpu es).map Prod.fst).Nodup :=
  (foldl_addTo es [] List.nodup_nil).1

theorem mem_perGpu {es : List (String × Int)} {g : String} {n : Int} :
    (g, n) ∈ perGpu es <-> (exists e, e ∈ es ∧ gpuOf e.1 = g) ∧ n = gpuBytes es g := by
  have hlookup := (foldl_addTo es [] List.nodup_nil).2 g
  constructor
  · intro h
    have hl := Counters.lookup_of_mem (perGpu_nodup es) h
    unfold perGpu at hl
    simp only [hlookup] at hl
    split_ifs at hl with hg
    · rw [Option.some_inj] at hl
      constructor
      · exact hg
      · rw [← hl]
        exact zero_add _
    · cases hl
  · intro ⟨hg, hn⟩
    apply Counters.mem_of_lookup
    unfold perGpu
    rw [hlookup, if_pos hg, hn]
    congr 1
    exact zero_add _

theorem perGpu_pos {es : List (String × Int)} (hpos : forall e, e ∈ es -> 0 < e.2)
    {e : String × Int} (he : e ∈ perGpu es) : 0 < e.2 := by
  rcases mem_perGpu.mp he with ⟨⟨l, hl, hg⟩, hn⟩
  rw [hn]
  unfold gpuBytes
  apply List.sum_pos
  · intro n hmem
    rcases List.mem_map.mp hmem with ⟨e', he', hn'⟩
    rw [← hn']
    exact hpos e' (List.mem_of_mem_filter he')
  · intro hnil
    have hmem : l ∈ es.filter fun e' => decide (gpuOf e'.1 = e.1) :=
      List.mem_filter.mpr ⟨hl, decide_eq_true hg⟩
    rw [List.map_eq_nil_iff.mp hnil] at hmem
    cases hmem

/-!
## What a check without problems says
-/

theorem atLeast_ok (q : Rat) (ns : List Int) :
    atLeast (.ok q) ns = .ok (ns.filter fun n : Int => decide (q ≤ n)) := by
  induction ns with
  | nil => rfl
  | cons n ns ih =>
      rw [atLeast, ih, List.filter_cons]
      by_cases h : q ≤ n
      · rw [Fallible.ok_bind, Fallible.ok_bind, if_pos h, if_pos (decide_eq_true h)]
        rfl
      · rw [Fallible.ok_bind, Fallible.ok_bind, if_neg h, if_neg (by simpa using h)]
        rfl

/-- A check of two paths, whose share is computed only when there is an amount. -/
theorem twoPaths_eq_nil {share : Except Exn Rat} {ns : List Int} {text : String} :
    (do
      let full <- atLeast share ns
      pure (if full.length < 2 then [text] else []) : Except Exn (List String)) = .ok [] <->
      exists q, share = .ok q ∧ 2 ≤ (ns.filter fun n : Int => decide (q ≤ n)).length := by
  cases share with
  | ok q =>
      rw [atLeast_ok, Fallible.ok_bind]
      constructor
      · intro h
        injection h with h
        split_ifs at h with hlen
        exact ⟨q, rfl, not_lt.mp hlen⟩
      · intro ⟨q', hq, hlen⟩
        injection hq with hq
        subst hq
        rw [if_neg (not_lt.mpr hlen)]
        rfl
  | error e =>
      constructor
      · intro h
        cases ns with
        | nil => cases h
        | cons n ns => cases h
      · intro ⟨q, hq, _⟩
        cases hq

theorem sumOfPaths_eq_nil {share : Except Exn Rat} {total : Int} {empty : Prop} [Decidable empty]
    {text : String} :
    (do
      let half <- share
      pure (if (total : Rat) < half ∨ empty then [text] else []) : Except Exn (List String)) =
        .ok [] <->
      exists q, share = .ok q ∧ ¬ empty ∧ q ≤ total := by
  rw [Fallible.bind_eq_ok]
  constructor
  · intro ⟨q, hq, h⟩
    injection h with h
    split_ifs at h with hbelow
    rw [not_or, not_lt] at hbelow
    exact ⟨q, hq, hbelow.2, hbelow.1⟩
  · intro ⟨q, hq, hne, hle⟩
    refine ⟨q, hq, ?_⟩
    rw [if_neg]
    · rfl
    · rw [not_or, not_lt]
      exact ⟨hle, hne⟩

theorem ibDevices_eq_nil {lanes : List Lane} :
    ibDevices lanes = [] <-> ¬ exists lane, lane ∈ lanes ∧ lane.tl ∈ IB_TLS := by
  unfold ibDevices
  rw [← List.length_eq_zero_iff, List.length_mergeSort, List.length_eq_zero_iff,
    List.dedup_eq_nil, List.map_eq_nil_iff, List.filter_eq_nil_iff]
  constructor
  · intro h ⟨lane, hlane, htl⟩
    exact h lane hlane (decide_eq_true htl)
  · intro h lane hlane htl
    exact h ⟨lane, hlane, of_decide_eq_true htl⟩

theorem mergeSort_sum (ns : List Int) : (ns.mergeSort (· ≤ ·)).sum = ns.sum :=
  (List.mergeSort_perm ns _).sum_eq

theorem mergeSort_filter_length (ns : List Int) (p : Int -> Bool) :
    ((ns.mergeSort (· ≤ ·)).filter p).length = (ns.filter p).length :=
  ((List.mergeSort_perm ns _).filter p).length_eq

/-- The workloads with a rule about InfiniBand or NVLink traffic. -/
def Tested (w : String) : Prop := w ∈ RDMA_WORKLOADS ∨ w ∈ NVLINK_WORKLOADS ∨ w = "dual_link"

/-- The share that each path has to reach is reached by enough of them. -/
def Reached (w : String) (amounts : List Int) (share : Except Exn Rat) : Prop :=
  exists q, share = .ok q ∧ needed w ≤ (amounts.filter fun n : Int => decide (q ≤ n)).length

theorem reached_onePath {w : String} (hw : w ≠ "dual_link") {traffic : List (String × Int)}
    {share : Except Exn Rat} :
    Reached w (onePath traffic) share <->
      exists q, share = .ok q ∧ traffic ≠ [] ∧ q ≤ ((traffic.map Prod.snd).sum : Int) := by
  unfold Reached onePath needed
  rw [if_neg hw]
  constructor
  · intro ⟨q, hq, hlen⟩
    exists q
    split_ifs at hlen with hnil
    · cases hlen
    · by_cases hle : q ≤ ((traffic.map Prod.snd).sum : Int)
      · exact ⟨hq, hnil, hle⟩
      · rw [List.filter_cons_of_neg (by simpa using hle)] at hlen
        cases hlen
  · intro ⟨q, hq, hne, hle⟩
    exists q
    rw [if_neg hne, List.filter_cons_of_pos (by simpa using hle)]
    exact ⟨hq, by simp⟩

theorem mergeSort_eq_nil {ns : List Int} : ns.mergeSort (· ≤ ·) = [] <-> ns = [] := by
  rw [← List.length_eq_zero_iff, List.length_mergeSort, List.length_eq_zero_iff]

theorem values_eq_nil {c : Counters} : c.values = [] <-> c.entries = [] := List.map_eq_nil_iff

theorem values_sum_eq_zero {c : Counters} (hpos : forall e, e ∈ c.entries -> 0 < e.2) :
    c.values.sum = 0 <-> c.entries = [] := by
  constructor
  · intro hsum
    by_contra hne
    have hlt : 0 < c.values.sum := by
      apply List.sum_pos
      · intro n hn
        rcases List.mem_map.mp hn with ⟨e, he, heq⟩
        rw [← heq]
        exact hpos e he
      · exact fun hnil => hne (values_eq_nil.mp hnil)
    exact (ne_of_gt hlt) hsum
  · intro hnil
    rw [values_eq_nil.mpr hnil]
    rfl

theorem nicProblem_eq_nil {py : Python} {ev : Ev} {bytes : Int} :
    nicProblem py ev bytes = .ok [] <->
      Reached ev.workload (nicPaths ev.workload ev.nicBytes.entries)
        (trueDiv bytes (halvings ev.workload)) := by
  unfold nicProblem nicPaths halvings
  by_cases hdual : ev.workload = "dual_link"
  · simp only [if_pos hdual]
    rw [twoPaths_eq_nil]
    unfold Reached needed
    rw [if_pos hdual]
    simp only [mergeSort_filter_length]
    rfl
  · simp only [if_neg hdual]
    rw [sumOfPaths_eq_nil, reached_onePath hdual, mergeSort_sum]
    simp only [mergeSort_eq_nil, values_eq_nil]
    rfl

theorem linkProblem_eq_nil {py : Python} {ev : Ev} {bytes : Int}
    (hpos : forall e, e ∈ ev.nvlinkBytes.entries -> 0 < e.2) :
    linkProblem py ev bytes = .ok [] <->
      Reached ev.workload
        (linkPaths ev.workload (sourceGpu ev.program) ev.nvlinkBytes.entries)
        (trueDiv bytes (halvings ev.workload)) := by
  unfold linkProblem linkPaths halvings
  by_cases hdual : ev.workload = "dual_link"
  · simp only [if_pos hdual]
    rw [twoPaths_eq_nil]
    unfold Reached needed
    rw [if_pos hdual]
  · simp only [if_neg hdual]
    rw [sumOfPaths_eq_nil, reached_onePath hdual]
    simp only [values_sum_eq_zero hpos]
    rfl

theorem laneProblem_eq_nil {py : Python} {ev : Ev} :
    laneProblem py ev = [] <-> exists lane, lane ∈ ev.lanes ∧ lane.tl ∈ IB_TLS := by
  unfold laneProblem
  split_ifs with h
  · constructor
    · intro hnil
      cases hnil
    · intro hlane
      exact absurd hlane (ibDevices_eq_nil.mp h)
  · constructor
    · intro _
      by_contra hlane
      exact h (ibDevices_eq_nil.mpr hlane)
    · intro _
      rfl

theorem memoryProblem_eq_nil {ev : Ev} :
    memoryProblem ev = [] <-> ev.program.find? "memory_type" = some "cuda" := by
  unfold memoryProblem
  split_ifs with h
  · simp [h]
  · simp [h]

theorem accessProblem_eq_nil {ev : Ev} :
    accessProblem ev = [] <-> ev.program.find? "peer_access" = some "1" := by
  unfold accessProblem
  split_ifs with h
  · simp [h]
  · simp [h]

/-- The evidence shows the capability and paths that reach their share. -/
theorem check_eq_nil {py : Python} {ev : Ev} (hw : Tested ev.workload)
    (hpos : forall e, e ∈ ev.nvlinkBytes.entries -> 0 < e.2) :
    check py ev = .ok [] <->
      Capability ev.workload ev.program ev.lanes ∧
        exists bytes, moved py ev.program = .ok bytes ∧
          Reached ev.workload
            (paths ev.workload ev.program ev.nicBytes.entries ev.nvlinkBytes.entries)
            (trueDiv bytes (halvings ev.workload)) := by
  unfold check Capability paths
  rw [Fallible.bind_eq_ok]
  by_cases hnic : overNics ev.workload ev.program
  · simp only [if_pos hnic]
    constructor
    · intro ⟨bytes, hbytes, hcheck⟩
      rcases Fallible.bind_eq_ok.mp hcheck with ⟨traffic, htraffic, hnil⟩
      injection hnil with hnil
      rw [List.append_eq_nil_iff, List.append_eq_nil_iff] at hnil
      rcases hnil with ⟨⟨hlane, hmemory⟩, hempty⟩
      rw [hempty] at htraffic
      exact ⟨⟨laneProblem_eq_nil.mp hlane, memoryProblem_eq_nil.mp hmemory⟩, bytes, hbytes,
        nicProblem_eq_nil.mp htraffic⟩
    · intro ⟨⟨hlane, hmemory⟩, bytes, hbytes, hreached⟩
      refine ⟨bytes, hbytes, ?_⟩
      unfold checkNics
      rw [nicProblem_eq_nil.mpr hreached, laneProblem_eq_nil.mpr hlane,
        memoryProblem_eq_nil.mpr hmemory]
      rfl
  · have hlink : ev.workload ∈ NVLINK_WORKLOADS ∨ ev.workload = "dual_link" := by
      rcases hw with hw | hw
      · apply absurd _ hnic
        unfold overNics
        rw [decide_eq_true hw, Bool.true_or]
      · exact hw
    simp only [if_neg hnic, if_pos hlink]
    constructor
    · intro ⟨bytes, hbytes, hcheck⟩
      rcases Fallible.bind_eq_ok.mp hcheck with ⟨traffic, htraffic, hnil⟩
      injection hnil with hnil
      rw [List.append_eq_nil_iff] at hnil
      rcases hnil with ⟨haccess, hempty⟩
      rw [hempty] at htraffic
      exact ⟨accessProblem_eq_nil.mp haccess, bytes, hbytes,
        (linkProblem_eq_nil hpos).mp htraffic⟩
    · intro ⟨haccess, bytes, hbytes, hreached⟩
      refine ⟨bytes, hbytes, ?_⟩
      unfold checkLinks
      rw [(linkProblem_eq_nil hpos).mpr hreached, accessProblem_eq_nil.mpr haccess]
      rfl

/-!
## Shares
-/

theorem two_le_length {es : List (String × Int)} (h : (es.map Prod.fst).Nodup) :
    2 ≤ es.length <-> exists p, p ∈ es ∧ exists q, q ∈ es ∧ p.1 ≠ q.1 := by
  match es, h with
  | [], _ => simp
  | [e], _ => simp
  | e :: e' :: rest, h =>
      constructor
      · intro _
        rw [List.map_cons, List.map_cons, List.nodup_cons] at h
        refine ⟨e, List.mem_cons_self, e', List.mem_cons_of_mem e List.mem_cons_self, ?_⟩
        intro heq
        apply h.1
        rw [heq]
        exact List.mem_cons_self
      · intro _
        simp

/-- Two amounts with a property belong to two entries. -/
theorem two_le_filter {es : List (String × Int)} (h : (es.map Prod.fst).Nodup) {p : Int -> Prop}
    [DecidablePred p] :
    2 ≤ ((es.map Prod.snd).filter fun n => decide (p n)).length <->
      exists a, a ∈ es ∧ exists b, b ∈ es ∧ a.1 ≠ b.1 ∧ p a.2 ∧ p b.2 := by
  rw [List.filter_map, List.length_map,
    two_le_length (h.sublist (List.filter_sublist.map Prod.fst))]
  simp only [List.mem_filter, Function.comp_apply, decide_eq_true_eq]
  constructor
  · intro ⟨a, ⟨ha, hpa⟩, b, ⟨hb, hpb⟩, hne⟩
    exact ⟨a, ha, b, hb, hne, hpa, hpb⟩
  · intro ⟨a, ha, b, hb, hne, hpa, hpb⟩
    exact ⟨a, ⟨ha, hpa⟩, b, ⟨hb, hpb⟩, hne⟩

theorem carried_onePath {w : String} (hw : w ≠ "dual_link") {traffic : List (String × Int)}
    {bytes : Int} (hbytes : 0 < bytes) :
    Carried w (onePath traffic) bytes <-> bytes ≤ 2 * (traffic.map Prod.snd).sum := by
  unfold Carried onePath needed halvings
  rw [if_neg hw, pow_one]
  by_cases hnil : traffic = []
  · subst hnil
    simpa using hbytes
  · rw [if_neg hnil]
    by_cases hle : bytes ≤ 2 * (traffic.map Prod.snd).sum
    · simp [hle]
    · simp [hle]

theorem gpuBytes_of_pos {es : List (String × Int)} {g : String} (h : 0 < gpuBytes es g) :
    (g, gpuBytes es g) ∈ perGpu es := by
  apply mem_perGpu.mpr
  constructor
  · by_contra hnone
    have hnil : (es.filter fun e => decide (gpuOf e.1 = g)) = [] := by
      rw [List.filter_eq_nil_iff]
      intro e he heq
      exact hnone ⟨e, he, of_decide_eq_true heq⟩
    unfold gpuBytes at h
    rw [hnil] at h
    exact absurd h (lt_irrefl 0)
  · rfl

/-- The paths carry their shares exactly when the traffic accounts for the bytes. -/
theorem carried_iff {w : String} {facts : OrdMap String String} {nic nvlink : List (String × Int)}
    (hnic : (nic.map Prod.fst).Nodup) {bytes : Int} (hbytes : 0 < bytes) :
    Carried w (paths w facts nic nvlink) bytes <-> Accounts w facts nic nvlink bytes := by
  unfold paths Accounts nicPaths linkPaths
  by_cases hover : overNics w facts
  · rw [if_pos hover, if_pos hover]
    by_cases hdual : w = "dual_link"
    · rw [if_pos hdual, if_pos hdual]
      unfold Carried needed halvings
      rw [if_pos hdual]
      exact two_le_filter hnic
    · rw [if_neg hdual, if_neg hdual]
      exact carried_onePath hdual hbytes
  · rw [if_neg hover, if_neg hover]
    by_cases hdual : w = "dual_link"
    · rw [if_pos hdual, if_pos hdual]
      unfold Carried needed halvings
      rw [if_pos hdual,
        two_le_filter ((perGpu_nodup nvlink).sublist (List.filter_sublist.map Prod.fst))]
      constructor
      · intro ⟨a, ha, b, hb, hne, hpa, hpb⟩
        rcases List.mem_filter.mp ha with ⟨ha, hasrc⟩
        rcases List.mem_filter.mp hb with ⟨hb, hbsrc⟩
        rw [(mem_perGpu.mp ha).2] at hpa
        rw [(mem_perGpu.mp hb).2] at hpb
        exact ⟨a.1, b.1, hne, bne_iff_ne.mp hasrc, bne_iff_ne.mp hbsrc, hpa, hpb⟩
      · intro ⟨g, h, hne, hgsrc, hhsrc, hg, hh⟩
        have hgmem := gpuBytes_of_pos (show 0 < gpuBytes nvlink g by omega)
        have hhmem := gpuBytes_of_pos (show 0 < gpuBytes nvlink h by omega)
        exact ⟨_, List.mem_filter.mpr ⟨hgmem, bne_iff_ne.mpr hgsrc⟩, _,
          List.mem_filter.mpr ⟨hhmem, bne_iff_ne.mpr hhsrc⟩, hne, hg, hh⟩
    · rw [if_neg hdual, if_neg hdual]
      exact carried_onePath hdual hbytes

theorem deltaEntries_nodup (before after : Counters) :
    ((deltaEntries before after).map Prod.fst).Nodup := (delta before after).nodup

theorem pos_of_trueDiv_pos {bytes : Int} (h : 0 < roundInt bytes) : 0 < bytes := by
  by_contra hle
  exact absurd h (not_lt.mpr (roundInt_nonpos (not_lt.mp hle)))

/-- The share in doubles is reached by the amounts that reach it rounded. -/
theorem reached_iff {w : String} {amounts : List Int} {bytes : Int} :
    Reached w amounts (trueDiv bytes (halvings w)) <->
      (roundInt bytes).natAbs < 2 ^ (1024 + halvings w) ∧ Carried w amounts (roundInt bytes) := by
  unfold Reached Carried trueDiv
  have hshare : forall n : Int, (roundInt bytes : Rat) / 2 ^ halvings w ≤ n <->
      roundInt bytes ≤ 2 ^ halvings w * n := by
    intro n
    rw [div_le_iff₀ (by positivity), mul_comm]
    exact_mod_cast Iff.rfl
  constructor
  · intro ⟨q, hq, hle⟩
    split_ifs at hq with hbig
    injection hq with hq
    subst hq
    simp only [hshare] at hle
    exact ⟨not_le.mp hbig, hle⟩
  · intro ⟨hsmall, hle⟩
    refine ⟨_, if_neg (not_le.mpr hsmall), ?_⟩
    simp only [hshare]
    exact hle

theorem onePath_pos {es : List (String × Int)} (hpos : forall e, e ∈ es -> 0 < e.2) {n : Int}
    (h : n ∈ onePath es) : 0 < n := by
  unfold onePath at h
  split_ifs at h with hnil
  · cases h
  · rw [List.mem_singleton.mp h]
    apply List.sum_pos
    · intro m hm
      rcases List.mem_map.mp hm with ⟨e, he, heq⟩
      rw [← heq]
      exact hpos e he
    · exact fun hmap => hnil (List.map_eq_nil_iff.mp hmap)

theorem paths_pos {w : String} {facts : OrdMap String String} {nic nvlink : List (String × Int)}
    (hnic : forall e, e ∈ nic -> 0 < e.2) (hnvlink : forall e, e ∈ nvlink -> 0 < e.2) {n : Int}
    (h : n ∈ paths w facts nic nvlink) : 0 < n := by
  unfold paths nicPaths linkPaths at h
  split_ifs at h
  · rcases List.mem_map.mp h with ⟨e, he, heq⟩
    rw [← heq]
    exact hnic e he
  · exact onePath_pos hnic h
  · rcases List.mem_map.mp h with ⟨e, he, heq⟩
    rw [← heq]
    exact perGpu_pos hnvlink (List.mem_of_mem_filter he)
  · exact onePath_pos hnvlink h

/-- Bytes that are not positive are carried by as many paths as there are. -/
theorem pos_of_not_carried {w : String} {amounts : List Int} (hpos : forall n, n ∈ amounts -> 0 < n)
    (hlen : needed w ≤ amounts.length) {bytes : Int} (h : ¬ Carried w amounts bytes) :
    0 < bytes := by
  by_contra hle
  apply h
  unfold Carried
  rw [List.filter_eq_self.mpr]
  · exact hlen
  · intro n hn
    have hn := hpos n hn
    rw [decide_eq_true_eq]
    exact le_trans (not_lt.mp hle) (by positivity)

theorem carried_length {w : String} {amounts : List Int} {bytes : Int}
    (h : Carried w amounts bytes) : needed w ≤ amounts.length :=
  le_trans h (List.length_filter_le _ _)

/-- Reported bytes are positive only when the program prints them. -/
theorem reported_of_moved {py : Python} {facts : OrdMap String String} {bytes : Int}
    (h : moved py facts = .ok bytes) (hpos : 0 < bytes) :
    exists text, facts.find? "bytes" = some text ∧ int py text = .ok bytes := by
  unfold moved at h
  cases htext : facts.find? "bytes" with
  | some text =>
      rw [htext] at h
      exact ⟨text, rfl, h⟩
  | none =>
      rw [htext] at h
      injection h with h
      omega

/-- The check of a built evidence file, when no counter appears. -/
theorem check_build {py : Python} {w : String} {before after : Snapshot} {output : String}
    (hw : Tested w) (hnic : NoneAppears before.nic after.nic)
    (hnvlink : NoneAppears before.nvlink after.nvlink) :
    check py (build py w before after output) = .ok [] <->
      Capability w (programFacts output) (ucxLanes py output) ∧
        exists bytes, Divisible py w (programFacts output) bytes ∧
          Carried w (paths w (programFacts output) (increases before.nic after.nic)
            (increases before.nvlink after.nvlink)) (roundInt bytes) := by
  rw [check_eq_nil hw (fun e he => deltaEntries_pos he)]
  show _ ∧ (exists bytes, _ ∧ Reached w (paths w _ (deltaEntries before.nic after.nic)
    (deltaEntries before.nvlink after.nvlink)) (trueDiv bytes (halvings w))) <-> _
  rw [deltaEntries_eq_increases hnic, deltaEntries_eq_increases hnvlink]
  simp only [reached_iff, Divisible, and_assoc]
  rfl

theorem check_failsClosed_iff (py : Python) (w : String) (before after : Snapshot)
    (output : String) (hw : Tested w) :
    FailsClosed py w before after output <-> Guarded py w before after output := by
  unfold FailsClosed Guarded
  rw [show (build py w before after output).nicBytes = delta before.nic after.nic from rfl,
    show (build py w before after output).nvlinkBytes = delta before.nvlink after.nvlink from rfl,
    noneAppears_iff, noneAppears_iff]
  constructor
  · intro ⟨hcheck, hnic, hnvlink⟩
    refine ⟨hnic, hnvlink, ?_⟩
    rw [check_build hw hnic hnvlink] at hcheck
    by_cases hcap : Capability w (programFacts output) (ucxLanes py output)
    · right
      by_cases hlen : (paths w (programFacts output) (increases before.nic after.nic)
          (increases before.nvlink after.nvlink)).length < needed w
      · exact Or.inl hlen
      · right
        intro bytes hdiv
        by_cases hround : Carried w (paths w (programFacts output)
            (increases before.nic after.nic) (increases before.nvlink after.nvlink))
            (roundInt bytes)
        · rcases hcheck ⟨hcap, bytes, hdiv, hround⟩ with ⟨text, n, htext, hint, hn, haccounts⟩
          have hmoved : moved py (programFacts output) = .ok n := by
            unfold moved
            rw [htext]
            exact hint
          have heq : n = bytes := by
            have h := hdiv.1
            rw [hmoved] at h
            injection h
          subst heq
          refine ⟨hn, fun _ => ?_⟩
          apply (carried_iff _ hn).mpr haccounts
          rw [← deltaEntries_eq_increases hnic]
          exact deltaEntries_nodup _ _
        · constructor
          · apply pos_of_trueDiv_pos
            apply pos_of_not_carried _ (not_lt.mp hlen) hround
            intro n hn
            apply paths_pos _ _ hn
            · rw [← deltaEntries_eq_increases hnic]
              exact fun e he => deltaEntries_pos he
            · rw [← deltaEntries_eq_increases hnvlink]
              exact fun e he => deltaEntries_pos he
          · intro h
            exact absurd h hround
    · exact Or.inl hcap
  · intro ⟨hnic, hnvlink, hor⟩
    refine ⟨?_, hnic, hnvlink⟩
    rw [check_build hw hnic hnvlink]
    intro ⟨hcap, bytes, hdiv, hround⟩
    rcases hor with hno | hlen | hbytes
    · exact absurd hcap hno
    · exact absurd (carried_length hround) (not_le.mpr hlen)
    · rcases hbytes bytes hdiv with ⟨hpos, hcarried⟩
      rcases reported_of_moved hdiv.1 hpos with ⟨text, htext, hint⟩
      refine ⟨text, bytes, htext, hint, hpos, ?_⟩
      apply (carried_iff _ hpos).mp (hcarried hround)
      rw [← deltaEntries_eq_increases hnic]
      exact deltaEntries_nodup _ _

/-!
## Two runs
-/

def asciiPython : Python where
  decimal := fun c => if c.isDigit then some (c.toNat - '0'.toNat) else none
  reprLanes := fun lanes =>
    "[" ++ ", ".intercalate (lanes.map fun lane =>
      "\x7b'tl': '" ++ lane.tl ++ "', 'device': '" ++ lane.device ++ "'\x7d") ++ "]"
  reprCounts := fun counts =>
    "\x7b" ++ ", ".intercalate (counts.map fun e => "'" ++ e.1 ++ "': " ++ toString e.2) ++ "\x7d"

/-- One InfiniBand port that stands at a number of bytes. -/
def onePort (n : Int) : Snapshot where
  nic := ⟨[("mlx5_0:1", n)], List.nodup_singleton _⟩
  nvlink := ⟨[], by decide⟩

def noPort : Snapshot where
  nic := ⟨[], by decide⟩
  nvlink := ⟨[], by decide⟩

/-- What a run prints about its endpoint and its memory, and then more facts. -/
def rdmaOutput (facts : String) : String :=
  "# lane[0]:  2:rc_mlx5/mlx5_0:1.0 md[1]\nevidence: memory_type=cuda" ++ facts ++ "\n"

theorem noneAppears_onePort (m n : Int) :
    NoneAppears (onePort m).nic (onePort n).nic ∧
      NoneAppears (onePort m).nvlink (onePort n).nvlink := by
  constructor
  · intro e he hnone
    rw [List.mem_singleton.mp he] at hnone
    cases hnone
  · intro e he
    cases he

theorem check_failsClosed_reported :
    FailsClosed asciiPython "rdma_put" (onePort 100) (onePort 164) (rdmaOutput " bytes=128") := by
  apply (check_failsClosed_iff _ _ _ _ _ (Or.inl (by decide))).mpr
  rcases noneAppears_onePort 100 164 with ⟨hnic, hnvlink⟩
  refine ⟨hnic, hnvlink, Or.inr (Or.inr ?_)⟩
  intro bytes ⟨hmoved, _⟩
  have hbytes : moved asciiPython (programFacts (rdmaOutput " bytes=128")) = .ok 128 := by
    decide +kernel
  rw [hbytes] at hmoved
  injection hmoved with hmoved
  subst hmoved
  rw [show roundInt 128 = 128 by decide]
  exact ⟨by decide, fun h => h⟩

/-- A run that reports no bytes passes, and a counter that appears counts in full. -/
theorem not_failsClosed :
    ¬ FailsClosed asciiPython "rdma_put" (onePort 100) (onePort 104) (rdmaOutput "") ∧
      ¬ FailsClosed asciiPython "rdma_put" noPort (onePort 1000) (rdmaOutput " bytes=128") := by
  constructor
  · intro ⟨hcheck, _⟩
    rcases noneAppears_onePort 100 104 with ⟨hnic, hnvlink⟩
    have hnil : check asciiPython
        (build asciiPython "rdma_put" (onePort 100) (onePort 104) (rdmaOutput "")) = .ok [] := by
      apply (check_build (Or.inl (by decide)) hnic hnvlink).mpr
      constructor
      · unfold Capability
        decide +kernel
      · refine ⟨0, ⟨by decide +kernel, by decide +kernel⟩, by decide +kernel⟩
    rcases hcheck hnil with ⟨text, _, htext, _⟩
    have hnone : (programFacts (rdmaOutput "")).find? "bytes" = none := by
      decide +kernel
    rw [hnone] at htext
    cases htext
  · intro ⟨_, hnic, _⟩
    exact hnic ("mlx5_0:1", 1000) (by decide +kernel) (by decide +kernel)

end Evidence
end Dev
end Ostia

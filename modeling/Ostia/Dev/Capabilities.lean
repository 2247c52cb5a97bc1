import Mathlib.Data.List.Basic

/-!
# What a machine can run

A setup names gate workloads and also-run workloads, and a machine its nodes, its
GPUs and its capabilities.  A gate workload that the machine cannot support fails
the gate before anything runs.
-/

namespace Ostia
namespace Dev
namespace Capabilities

inductive Workload where
  | p2pCopy
  | pipelining
  | batching
  | dualLink
  | rdmaPut
  | gdrStream
  | tcpPut
  | onpathPlacement
  | topoCapture
deriving DecidableEq, Repr

/-- The name of a workload in a setup file and in its records. -/
def Workload.name : Workload -> String
  | .p2pCopy => "p2p_copy"
  | .pipelining => "pipelining"
  | .batching => "batching"
  | .dualLink => "dual_link"
  | .rdmaPut => "rdma_put"
  | .gdrStream => "gdr_stream"
  | .tcpPut => "tcp_put"
  | .onpathPlacement => "onpath_placement"
  | .topoCapture => "topo_capture"

structure Needs where
  capabilities : List String
  minGpus : Nat := 0
  nodes : Nat := 1

/-- What each form of a workload needs from one machine; the nodes are a minimum. -/
def workloads : Workload -> List Needs
  | .p2pCopy => [{ capabilities := ["nvlink-p2p"], minGpus := 2 }]
  | .pipelining => [{ capabilities := ["nvlink-p2p"], minGpus := 2 }]
  | .batching => [{ capabilities := ["nvlink-p2p"], minGpus := 2 }]
  | .dualLink => [
      { capabilities := ["gpudirect-rdma", "multi-rail"], minGpus := 1, nodes := 2 },
      { capabilities := ["nvlink-p2p"], minGpus := 3, nodes := 1 }]
  | .rdmaPut => [{ capabilities := ["gpudirect-rdma"], minGpus := 1, nodes := 2 }]
  | .gdrStream => [{ capabilities := ["gpudirect-rdma"], minGpus := 1, nodes := 2 }]
  | .tcpPut => [{ capabilities := ["tcp"], nodes := 2 }]
  | .onpathPlacement => [{ capabilities := ["nvlink-p2p"], minGpus := 2 }]
  | .topoCapture => [{ capabilities := [] }]

structure Machine where
  capabilities : List String
  accelerators : String
  /-- The nodes; for a k8s machine its pods. -/
  nodes : Nat

/-- The number behind the last colon, zero when it is no number. -/
def gpus (machine : Machine) : Nat :=
  let count := (machine.accelerators.toList.reverse.takeWhile fun c => c ≠ ':').reverse
  if count ≠ [] ∧ count.all Char.isDigit then Nat.ofDigitChars 10 count 0 else 0

/-- Why a machine does not meet the needs; empty when it does. -/
def whyNot (needs : Needs) (machine : Machine) : String :=
  let missing := needs.capabilities.filter fun c => c ∉ machine.capabilities
  if missing ≠ [] then "missing " ++ ", ".intercalate missing
  else if machine.nodes < needs.nodes then
    "needs " ++ toString needs.nodes ++ " nodes, has " ++ toString machine.nodes
  else if gpus machine < needs.minGpus then
    "needs " ++ toString needs.minGpus ++ " GPUs per node, has " ++ toString (gpus machine)
  else ""

/-- The first form that the nodes of a machine allow, else the last one. -/
def formFor (forms : List Needs) (nodes : Nat) : Option Needs :=
  (forms.find? fun needs => needs.nodes ≤ nodes).or forms.getLast?

structure Setup where
  gate : List Workload
  alsoRun : List Workload

structure Result where
  workload : Workload
  required : Bool
  supported : Bool
  reason : String

def evaluateOne (setup : Setup) (machine : Machine) (w : Workload) : Result :=
  let reason := ((formFor (workloads w) machine.nodes).map (whyNot · machine)).getD ""
  ⟨w, w ∈ setup.gate, reason = "", reason⟩

def evaluate (setup : Setup) (machine : Machine) : List Result :=
  (setup.gate ++ setup.alsoRun).map (evaluateOne setup machine)

/-- The gate workloads that the machine cannot support. -/
def unsupported (setup : Setup) (machine : Machine) : List Result :=
  (evaluate setup machine).filter fun r => r.required && !r.supported

/-!
## What a supported workload has
-/

/-- A machine has what is needed. -/
structure Meets (needs : Needs) (machine : Machine) : Prop where
  capabilities : needs.capabilities ⊆ machine.capabilities
  nodes : needs.nodes ≤ machine.nodes
  gpus : needs.minGpus ≤ gpus machine

theorem append_ne_empty {a b : String} (h : a ≠ "") : a ++ b ≠ "" := by
  intro heq
  rw [String.append_eq_empty_iff] at heq
  exact h heq.1

theorem whyNot_eq_empty {needs : Needs} {machine : Machine} :
    whyNot needs machine = "" <-> Meets needs machine := by
  have hmissing : (needs.capabilities.filter fun c => c ∉ machine.capabilities) = [] <->
      needs.capabilities ⊆ machine.capabilities := by
    rw [List.filter_eq_nil_iff]
    simp only [decide_eq_true_eq, not_not]
    rfl
  unfold whyNot
  dsimp only
  split_ifs with hcapabilities hnodes hgpus
  · refine iff_of_false (append_ne_empty (by decide)) ?_
    intro hmeets
    exact hcapabilities (hmissing.mpr hmeets.capabilities)
  · refine iff_of_false (append_ne_empty (append_ne_empty (append_ne_empty (by decide)))) ?_
    intro hmeets
    exact Nat.not_le.mpr hnodes hmeets.nodes
  · refine iff_of_false (append_ne_empty (append_ne_empty (append_ne_empty (by decide)))) ?_
    intro hmeets
    exact Nat.not_le.mpr hgpus hmeets.gpus
  · refine iff_of_true rfl ⟨hmissing.mp (not_not.mp hcapabilities), ?_, ?_⟩
    · exact Nat.not_lt.mp hnodes
    · exact Nat.not_lt.mp hgpus

/-- Every workload has a form. -/
theorem exists_formFor (w : Workload) (nodes : Nat) :
    exists needs, needs ∈ workloads w ∧ formFor (workloads w) nodes = some needs := by
  unfold formFor
  cases hfind : (workloads w).find? fun needs => needs.nodes ≤ nodes with
  | some needs => exact ⟨needs, List.mem_of_find?_eq_some hfind, rfl⟩
  | none =>
      have hne : workloads w ≠ [] := by cases w <;> exact List.cons_ne_nil _ _
      exact ⟨_, List.getLast_mem hne, List.getLast?_eq_some_getLast hne⟩

theorem supported_iff {setup : Setup} {machine : Machine} {w : Workload} :
    (evaluateOne setup machine w).supported = true <->
      exists needs, formFor (workloads w) machine.nodes = some needs ∧ Meets needs machine := by
  rcases exists_formFor w machine.nodes with ⟨needs, _, hform⟩
  unfold evaluateOne
  rw [hform]
  simp only [Option.map_some, Option.getD_some, decide_eq_true_eq, Option.some_inj,
    exists_eq_left', whyNot_eq_empty]

/-- A machine without an unsupported gate workload has what each of them needs. -/
theorem unsupported_eq_nil {setup : Setup} {machine : Machine} :
    unsupported setup machine = [] <-> forall w, w ∈ setup.gate ->
      exists needs, formFor (workloads w) machine.nodes = some needs ∧ Meets needs machine := by
  unfold unsupported evaluate
  rw [List.filter_eq_nil_iff, List.forall_mem_map]
  constructor
  · intro h w hw
    have hone := h w (List.mem_append_left _ hw)
    rw [← @supported_iff setup]
    simpa [evaluateOne, hw] using hone
  · intro h w _
    by_cases hw : w ∈ setup.gate
    · have hsupported := (@supported_iff setup machine w).mpr (h w hw)
      rw [hsupported]
      simp
    · simp [evaluateOne, hw]

/-- The put over tcp runs between two nodes. -/
example : (unsupported ⟨[.tcpPut], []⟩ ⟨["tcp"], "L4:1", 1⟩).map Result.reason =
    ["needs 2 nodes, has 1"] := by decide +kernel

end Capabilities
end Dev
end Ostia

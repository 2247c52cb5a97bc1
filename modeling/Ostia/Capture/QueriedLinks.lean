import Mathlib.Data.List.TakeWhile
import Mathlib.Tactic.SplitIfs
import Ostia.Capture.Nvml
import Ostia.Foundation.Fallible

/-!
# Links that NVML reports

Which links of a GPU end up in the facts, and when one of them is active with a GPU at its other
end.
-/

namespace Ostia
namespace Capture
namespace Nvml

open Foundation

/-- NVML reports the link of a GPU: it names no earlier link as the end, and can report links. -/
structure Reported (state : Nat -> Nat -> Return × Bool) (i l : Nat) : Prop where
  bound : l < kNvmlMaxLinks
  known : forall k, k ≤ l -> (state i k).1 ≠ .invalidArgument
  supported : (state i 0).1 ≠ .notSupported

section

variable {lib : Library} {state : Nat -> Nat -> Return × Bool}

/-- The links up to the first one that NVML does not know. -/
def heard (state : Nat -> Nat -> Return × Bool) (i : Nat) (ls : List Nat) : List Nat :=
  ls.takeWhile fun l => (state i l).1 ≠ .invalidArgument

theorem probeLinks_value (i : Nat) (ls : List Nat) (s : Scan (List NvLink)) :
    (probeLinks lib state i ls s).value =
      if 0 ∈ heard state i ls ∧ (state i 0).1 = .notSupported then none
      else some (s.value ++ (heard state i ls).map fun l =>
        linkOf lib i l (state i l).1 (state i l).2) := by
  induction ls generalizing s with
  | nil =>
      rw [if_neg (by simp [heard])]
      simp [probeLinks, heard]
  | cons l rest ih =>
      rw [probeLinks]
      simp only
      by_cases hend : (state i l).1 = .invalidArgument
      · have hnil : heard state i (l :: rest) = [] := by
          unfold heard
          rw [List.takeWhile_cons_of_neg (by simpa using hend)]
        rw [if_pos hend, hnil, if_neg (by simp)]
        simp
      · have hcons : heard state i (l :: rest) = l :: heard state i rest := by
          unfold heard
          rw [List.takeWhile_cons_of_pos (by simpa using hend)]
        rw [if_neg hend, hcons]
        by_cases hnone : (state i l).1 = .notSupported ∧ l = 0
        · have hzero : (state i 0).1 = .notSupported := by
            rw [<- hnone.2]
            exact hnone.1
          rw [if_pos hnone, if_pos ⟨by rw [hnone.2]; exact List.mem_cons_self, hzero⟩]
        · have hhead : (0 ∈ l :: heard state i rest ∧ (state i 0).1 = .notSupported) <->
              0 ∈ heard state i rest ∧ (state i 0).1 = .notSupported := by
            rw [List.mem_cons]
            constructor
            · intro h
              obtain ⟨hmem | hmem, hrc⟩ := h
              · rw [hmem] at hrc
                exact absurd ⟨hrc, hmem.symm⟩ hnone
              · exact ⟨hmem, hrc⟩
            · intro h
              exact ⟨.inr h.1, h.2⟩
          rw [if_neg hnone, ih]
          simp only [hhead, List.map_cons, List.append_assoc, List.singleton_append]

theorem mem_takeWhile_range {p : Nat -> Bool} {n l : Nat} :
    l ∈ (List.range n).takeWhile p <-> l < n ∧ forall k, k ≤ l -> p k = true := by
  induction n with
  | zero => simp
  | succ n ih =>
      rw [List.range_succ, List.takeWhile_append]
      split_ifs with hall
      · have hp : forall k, k < n -> p k = true := by
          have hself : (List.range n).takeWhile p = List.range n :=
            (List.takeWhile_prefix p).eq_of_length hall
          intro k hk
          exact List.takeWhile_eq_self_iff.mp hself k (List.mem_range.mpr hk)
        rw [List.mem_append, List.mem_range]
        constructor
        · intro h
          cases h with
          | inl h => exact ⟨by omega, fun k hk => hp k (by omega)⟩
          | inr h =>
              cases hn : p n with
              | false =>
                  rw [List.takeWhile_cons_of_neg (by simp [hn])] at h
                  cases h
              | true =>
                  rw [List.takeWhile_cons_of_pos hn, List.takeWhile_nil,
                    List.mem_singleton] at h
                  refine ⟨by omega, ?_⟩
                  intro k hk
                  cases Nat.lt_or_ge k n with
                  | inl hlt => exact hp k hlt
                  | inr hge =>
                      rw [show k = n by omega]
                      exact hn
        · intro h
          cases Nat.lt_or_ge l n with
          | inl hlt => exact .inl hlt
          | inr hge =>
              have hl : l = n := by omega
              right
              rw [List.takeWhile_cons_of_pos (h.2 n (by omega)), hl]
              exact List.mem_cons_self
      · rw [ih]
        constructor
        · intro h
          exact ⟨by omega, h.2⟩
        · intro h
          refine ⟨?_, h.2⟩
          cases Nat.lt_or_ge l n with
          | inl hlt => exact hlt
          | inr hge =>
              exfalso
              apply hall
              rw [List.takeWhile_eq_self_iff.mpr]
              intro k hk
              have hlt := List.mem_range.mp hk
              exact h.2 k (by omega)

/-- The links of a GPU in the facts are those that NVML reports. -/
theorem exists_nvlinks_iff {i : Nat} {P : NvLink -> Prop} (hstate : lib.linkState = some state) :
    (exists links, (nvlinks lib i).value = some links ∧ exists link, link ∈ links ∧ P link) <->
      exists l, Reported state i l ∧ P (linkOf lib i l (state i l).1 (state i l).2) := by
  have hmem : forall l, l ∈ heard state i (List.range kNvmlMaxLinks) <->
      l < kNvmlMaxLinks ∧ forall k, k ≤ l -> (state i k).1 ≠ .invalidArgument := by
    intro l
    unfold heard
    rw [mem_takeWhile_range]
    simp
  have hvalue : (nvlinks lib i).value = _ :=
    (show nvlinks lib i = probeLinks lib state i (List.range kNvmlMaxLinks) ⟨[], 0, 0⟩ by
      unfold nvlinks
      rw [hstate]) ▸ probeLinks_value i _ _
  rw [hvalue]
  constructor
  · intro h
    obtain ⟨links, hlinks, link, hlink, hp⟩ := h
    split_ifs at hlinks with hnone
    rw [Option.some_inj] at hlinks
    rw [<- hlinks, List.nil_append, List.mem_map] at hlink
    obtain ⟨l, hl, rfl⟩ := hlink
    obtain ⟨hbound, hknown⟩ := (hmem l).mp hl
    refine ⟨l, ⟨hbound, hknown, ?_⟩, hp⟩
    intro hrc
    apply hnone
    refine ⟨(hmem 0).mpr ⟨by decide, ?_⟩, hrc⟩
    intro k hk
    exact hknown k (by omega)
  · intro h
    obtain ⟨l, hreported, hp⟩ := h
    rw [if_neg fun hnone => hreported.supported hnone.2]
    exact ⟨_, rfl, _, List.mem_append_right _ (List.mem_map_of_mem
      ((hmem l).mpr ⟨hreported.bound, hreported.known⟩)), hp⟩

theorem nvlinks_none {i : Nat} (hstate : lib.linkState = none) : (nvlinks lib i).value = none := by
  unfold nvlinks
  rw [hstate]

end

/-!
## GPUs of the facts
-/

/-- The bus ID of a GPU of NVML. -/
def Library.lists (lib : Library) (id : Bytes) : Prop :=
  exists i, i < lib.count.2 ∧ busId (lib.pci i).2 = .ok id

section

variable {lib : Library} {facts : NvmlFacts}

theorem device_spec {i : Nat} {scan : Scan Gpu} (h : device lib i = .ok scan) :
    exists bus, busId (lib.pci i).2 = .ok bus ∧ scan = gpu lib i bus := by
  unfold device at h
  split_ifs at h
  cases hbus : busId (lib.pci i).2 with
  | error reason =>
      rw [hbus] at h
      cases h
  | ok bus =>
      rw [hbus] at h
      cases h
      exact ⟨bus, rfl, rfl⟩

/-- The facts are made of what was found about each GPU. -/
theorem exists_scans (h : (query lib).1 = .ok facts) :
    exists scans, facts.gpus = scans.map Scan.value ∧
      List.Forall₂ (fun i scan => device lib i = .ok scan) (List.range lib.count.2) scans := by
  unfold query at h
  split_ifs at h
  cases hscans : (List.range lib.count.2).mapM (device lib) with
  | error failure =>
      rw [hscans] at h
      cases h
  | ok scans =>
      rw [hscans] at h
      cases h
      exact ⟨scans, rfl, Fallible.mapM_eq_ok.mp hscans⟩

/-- Without a bus ID of each GPU there are no facts. -/
theorem exists_busId (h : (query lib).1 = .ok facts) {i : Nat} (hi : i < lib.count.2) :
    exists bus, busId (lib.pci i).2 = .ok bus := by
  obtain ⟨scans, _, hscans⟩ := exists_scans h
  obtain ⟨scan, _, hdevice⟩ := Fallible.forall₂_mem_left hscans (List.mem_range.mpr hi)
  obtain ⟨bus, hbus, _⟩ := device_spec hdevice
  exact ⟨bus, hbus⟩

/-- The facts are about the GPUs that NVML lists. -/
theorem mem_gpus_iff (h : (query lib).1 = .ok facts) {g : Gpu} :
    g ∈ facts.gpus <-> exists i bus, i < lib.count.2 ∧ busId (lib.pci i).2 = .ok bus ∧
      g = (gpu lib i bus).value := by
  obtain ⟨scans, hgpus, hscans⟩ := exists_scans h
  rw [hgpus, List.mem_map]
  constructor
  · intro hg
    obtain ⟨scan, hscan, rfl⟩ := hg
    obtain ⟨i, hi, hdevice⟩ := Fallible.forall₂_mem_right hscans hscan
    obtain ⟨bus, hbus, rfl⟩ := device_spec hdevice
    exact ⟨i, bus, List.mem_range.mp hi, hbus, rfl⟩
  · intro hg
    obtain ⟨i, bus, hi, hbus, rfl⟩ := hg
    obtain ⟨scan, hscan, hdevice⟩ := Fallible.forall₂_mem_left hscans (List.mem_range.mpr hi)
    obtain ⟨bus', hbus', rfl⟩ := device_spec hdevice
    rw [hbus] at hbus'
    cases hbus'
    exact ⟨_, hscan, rfl⟩

theorem lists_iff (h : (query lib).1 = .ok facts) {id : Bytes} :
    lib.lists id <-> id ∈ facts.gpus.map Gpu.busId := by
  unfold Library.lists
  rw [List.mem_map]
  constructor
  · intro hid
    obtain ⟨i, hi, hbus⟩ := hid
    exact ⟨(gpu lib i id).value, (mem_gpus_iff h).mpr ⟨i, id, hi, hbus, rfl⟩, rfl⟩
  · intro hid
    obtain ⟨g, hg, rfl⟩ := hid
    obtain ⟨i, bus, hi, hbus, rfl⟩ := (mem_gpus_iff h).mp hg
    exact ⟨i, hi, hbus⟩

end

end Nvml
end Capture
end Ostia

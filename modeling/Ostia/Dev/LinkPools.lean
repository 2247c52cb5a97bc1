import Ostia.Dev.Links

/-!
# Pools of copies

The converter groups the copies by source, destination and size in the order of the records.
What a group holds and whether a conversion fails do not depend on that order when the samples
are taken as exact numbers.
-/

namespace Ostia
namespace Dev
namespace Links

open Foundation
open Ostia.Topology
open Ostia.Topology.Builder (StringSet)

/-!
## Exact medians
-/

/-- The number of a sample. -/
def exactValue : Json -> Rat
  | .int n => n
  | .float q => q
  | _ => 0

/-- The median of numbers: the middle one, or the mean of the two in the middle. -/
def medianOf (values : List Rat) : Rat :=
  let data := Sorting.sorted values
  if data.length % 2 = 1 then data.getD (data.length / 2) 0
  else (data.getD (data.length / 2 - 1) 0 + data.getD (data.length / 2) 0) / 2

/-- The nearest integer, halves to even. -/
def roundEven (q : Rat) : Int :=
  let n := ⌊q⌋
  if 1 / 2 < q - n ∨ (q - n = 1 / 2 ∧ n % 2 = 1) then n + 1 else n

def exactMbps (samples : List Json) : Int := roundEven (medianOf (samples.map exactValue) * 1000)

/-- Python on samples taken as exact numbers. -/
def Python.exact (py : Python) : Python := { py with bwMbps := exactMbps }

theorem exactMbps_perm {xs ys : List Json} (h : xs.Perm ys) : exactMbps xs = exactMbps ys := by
  have hsorted := Sorting.sorted_eq_iff_perm.mpr (h.map exactValue)
  unfold exactMbps medianOf
  rw [hsorted]

/-!
## The copies of the records
-/

/-- A copy from one GPU to another, with its samples. -/
structure Copy where
  src : String
  dst : String
  size : Int
  concurrency : Int
  samples : List Json

def keyOf (src dst : String) (size : Int) : String ×ₗ String ×ₗ Int :=
  toLex (src, toLex (dst, size))

def Copy.key (c : Copy) : String ×ₗ String ×ₗ Int := keyOf c.src c.dst c.size

def Link.key (l : Link) : String ×ₗ String ×ₗ Int := keyOf l.src l.dst l.bytes

def paramsOf (fields : List (String × Json)) : List (String × Json) :=
  match OrdMap.lookup "params" fields with
  | some (.obj params) => params
  | _ => []

def intMember (fields : List (String × Json)) (key : String) : Option Int :=
  match OrdMap.lookup key fields with
  | some (.int n) => some n
  | _ => none

def arrMember (fields : List (String × Json)) (key : String) : Option (List Json) :=
  match OrdMap.lookup key fields with
  | some (.arr xs) => some xs
  | _ => none

/-- The copy between two different GPUs that the fields of a benchmark record hold. -/
def copyIn (py : Python) (fields : List (String × Json)) : Option Copy := do
  let srcBus ← busMember (OrdMap.lookup "devices" fields) "src_bus"
  let dstBus ← busMember (OrdMap.lookup "devices" fields) "dst_bus"
  let concurrency ← intMember (paramsOf fields) "concurrency"
  let size ← intMember (paramsOf fields) "bytes"
  let samples ← arrMember fields "samples"
  if py.lower srcBus = py.lower dstBus then none
  else some ⟨py.lower srcBus, py.lower dstBus, size, concurrency, samples⟩

/-- A record of a copy in one direction. -/
def isCopy (py : Python) (fields : List (String × Json)) : Bool :=
  isText (OrdMap.lookup "bench" fields) "p2p_copy" &&
    !bidirectional (text py ((OrdMap.lookup "direction" (paramsOf fields)).getD (.str "")))

/-- The copy in one direction between two different GPUs that a record holds. -/
def copyOf (py : Python) : Json -> Option Copy
  | .obj fields => if isCopy py fields then copyIn py fields else none
  | _ => none

/-- A record is read before it is pooled: an error, a record that is skipped, or a copy. -/
def readCopy (py : Python) (gpus : StringSet) (index : Nat)
    (record params : List (String × Json)) : Except Failure (Option Copy) := do
  let devices := OrdMap.lookup "devices" record
  match busMember devices "src_bus", busMember devices "dst_bus" with
  | some srcBus, some dstBus =>
      let src := py.lower srcBus
      let dst := py.lower dstBus
      if !(Schema.isBusId src && Schema.isBusId dst) then
        .error (badRecord index "devices holds a malformed bus ID"
          "bus IDs are dddd:bb:dd.f, lowercase")
      else
        let concurrency ← intParam params "concurrency" index
        let size ← intParam params "bytes" index
        if src = dst then pure none
        else if !(gpus.contains src && gpus.contains dst) then
          .error (badCapture
            ("record " ++ toString index ++ " measured a GPU the capture does not list")
            "pass --capture <dir> of the machine that ran the benchmarks")
        else
          match isText (OrdMap.lookup "unit" record) unit, OrdMap.lookup "samples" record with
          | true, some (.arr (v :: rest)) => do
              if !(← checkSamples (v :: rest)) then
                .error (badRecord index "p2p_copy has a sample that is not a finite number"
                  "samples are numbers in GB/s")
              else pure (some ⟨src, dst, size, concurrency, v :: rest⟩)
          | _, _ =>
              .error (badRecord index ("p2p_copy has no samples in " ++ unit)
                "bandwidths are medians of samples")
  | _, _ =>
      .error (badRecord index "p2p_copy has no devices.src_bus and devices.dst_bus"
        "links are keyed by bus ID; CUDA ordinals are never mapped")

def readRecord (py : Python) (gpus : StringSet) (record : Json) (index : Nat) :
    Except Failure (Option Copy) :=
  match record with
  | .obj fields =>
      if isCopy py fields then readCopy py gpus index fields (paramsOf fields) else .ok none
  | _ =>
      .error (badRecord index "is not a JSON object"
        "records are one JSON object per line")

def poolCopy (groups : Groups) (index : Nat) : Option Copy -> Except Failure Groups
  | none => .ok groups
  | some c => pool groups index c.src c.dst c.size c.concurrency c.samples

/-- A copy is read and then pooled. -/
theorem addCopy_eq (py : Python) (gpus : StringSet) (groups : Groups) (index : Nat)
    (record params : List (String × Json)) :
    addCopy py gpus groups index record params =
      readCopy py gpus index record params >>= poolCopy groups index := by
  unfold addCopy readCopy
  dsimp only
  cases busMember (OrdMap.lookup "devices" record) "src_bus" with
  | none => rfl
  | some srcBus =>
      cases busMember (OrdMap.lookup "devices" record) "dst_bus" with
      | none => rfl
      | some dstBus =>
          dsimp only
          cases intParam params "concurrency" index with
          | error e =>
              split_ifs
              all_goals rfl
          | ok concurrency =>
              cases intParam params "bytes" index with
              | error e =>
                  split_ifs
                  all_goals rfl
              | ok size =>
                  split_ifs with hbus hsame hlisted
                  · rfl
                  · rfl
                  · rfl
                  · cases isText (OrdMap.lookup "unit" record) unit with
                    | false => rfl
                    | true =>
                        cases OrdMap.lookup "samples" record with
                        | none => rfl
                        | some samples =>
                            cases samples with
                            | arr xs =>
                                cases xs with
                                | nil => rfl
                                | cons v rest =>
                                    dsimp only
                                    cases checkSamples (v :: rest) with
                                    | error e => rfl
                                    | ok finite =>
                                        cases finite with
                                        | false => rfl
                                        | true => rfl
                            | _ => rfl

theorem ite_not_copy {b : Bool} {groups : Groups} {index : Nat}
    {added : Except Failure Groups} {o : Except Failure (Option Copy)}
    (h : added = o >>= poolCopy groups index) :
    (if b then .ok groups else added) =
      (if (true && !b) = true then o else .ok none) >>= poolCopy groups index := by
  cases b with
  | false => exact h
  | true => rfl

theorem addRecord_eq (py : Python) (gpus : StringSet) (groups : Groups) (record : Json)
    (index : Nat) : addRecord py gpus groups (record, index) =
      readRecord py gpus record index >>= poolCopy groups index := by
  unfold addRecord readRecord
  cases record with
  | obj fields =>
      dsimp only
      unfold isCopy
      cases isText (OrdMap.lookup "bench" fields) "p2p_copy" with
      | false => rfl
      | true =>
          have hcopy := addCopy_eq py gpus groups index fields (paramsOf fields)
          rw [Bool.not_true, if_neg Bool.false_ne_true]
          unfold paramsOf at hcopy ⊢
          revert hcopy
          cases OrdMap.lookup "params" fields with
          | none => exact fun hcopy => ite_not_copy (b := bidirectional _) hcopy
          | some v =>
              cases v with
              | obj params => exact fun hcopy => ite_not_copy (b := bidirectional _) hcopy
              | _ => exact fun hcopy => ite_not_copy (b := bidirectional _) hcopy
  | _ => rfl

theorem intParam_ok_iff {params : List (String × Json)} {key : String} {index : Nat} {n : Int} :
    intParam params key index = .ok n <-> intMember params key = some n := by
  unfold intParam intMember
  cases OrdMap.lookup key params with
  | none => simp
  | some v =>
      cases v with
      | int m => simp
      | _ => simp

/-- A copy that is read is the one of the record. -/
theorem readCopy_ok {py : Python} {gpus : StringSet} {index : Nat}
    {fields : List (String × Json)} {o : Option Copy}
    (h : readCopy py gpus index fields (paramsOf fields) = .ok o) : o = copyIn py fields := by
  unfold copyIn
  unfold readCopy at h
  dsimp only at h
  split at h
  · rename_i srcBus dstBus hsrc hdst
    rw [hsrc, hdst]
    split_ifs at h with hbus hsame hlisted
    · obtain ⟨concurrency, hconcurrency, h⟩ := Fallible.bind_eq_ok.mp h
      obtain ⟨size, hsize, h⟩ := Fallible.bind_eq_ok.mp h
      injection h with h
      rw [intParam_ok_iff.mp hconcurrency, intParam_ok_iff.mp hsize, ← h]
      cases arrMember fields "samples" with
      | none => rfl
      | some samples => simp [hsame]
    · obtain ⟨concurrency, _, h⟩ := Fallible.bind_eq_ok.mp h
      obtain ⟨size, _, h⟩ := Fallible.bind_eq_ok.mp h
      cases h
    · obtain ⟨concurrency, hconcurrency, h⟩ := Fallible.bind_eq_ok.mp h
      obtain ⟨size, hsize, h⟩ := Fallible.bind_eq_ok.mp h
      rw [intParam_ok_iff.mp hconcurrency, intParam_ok_iff.mp hsize]
      split at h
      · rename_i v rest _ hsamples
        obtain ⟨finite, _, h⟩ := Fallible.bind_eq_ok.mp h
        split_ifs at h with hfinite
        injection h with h
        have hmember : arrMember fields "samples" = some (v :: rest) := by
          unfold arrMember
          rw [hsamples]
        rw [← h, hmember]
        simp [hsame]
      · cases h
  · cases h

theorem readRecord_ok {py : Python} {gpus : StringSet} {record : Json} {index : Nat}
    {o : Option Copy} (h : readRecord py gpus record index = .ok o) : o = copyOf py record := by
  unfold readRecord at h
  cases record with
  | obj fields =>
      dsimp only at h
      unfold copyOf
      dsimp only
      split_ifs at h ⊢ with hcopy
      · exact readCopy_ok h
      · injection h with h
        rw [h]
  | _ => cases h

theorem readCopy_index {py : Python} {gpus : StringSet} {i : Nat}
    {fields params : List (String × Json)} {o : Option Copy}
    (h : readCopy py gpus i fields params = .ok o) (j : Nat) :
    readCopy py gpus j fields params = .ok o := by
  unfold readCopy at h ⊢
  dsimp only at h ⊢
  split at h
  · split_ifs at h ⊢ with hbus hsame hlisted
    · obtain ⟨concurrency, hconcurrency, h⟩ := Fallible.bind_eq_ok.mp h
      obtain ⟨size, hsize, h⟩ := Fallible.bind_eq_ok.mp h
      rw [intParam_ok_iff.mpr (intParam_ok_iff.mp hconcurrency), Fallible.ok_bind,
        intParam_ok_iff.mpr (intParam_ok_iff.mp hsize)]
      exact h
    · obtain ⟨concurrency, _, h⟩ := Fallible.bind_eq_ok.mp h
      obtain ⟨size, _, h⟩ := Fallible.bind_eq_ok.mp h
      cases h
    · obtain ⟨concurrency, hconcurrency, h⟩ := Fallible.bind_eq_ok.mp h
      obtain ⟨size, hsize, h⟩ := Fallible.bind_eq_ok.mp h
      rw [intParam_ok_iff.mpr (intParam_ok_iff.mp hconcurrency), Fallible.ok_bind,
        intParam_ok_iff.mpr (intParam_ok_iff.mp hsize), Fallible.ok_bind]
      split at h
      · obtain ⟨finite, hfinite, h⟩ := Fallible.bind_eq_ok.mp h
        rw [hfinite, Fallible.ok_bind]
        split_ifs at h ⊢
        exact h
      · cases h
  · cases h

/-- The index of a record stands in the errors only. -/
theorem readRecord_index {py : Python} {gpus : StringSet} {record : Json} {i : Nat}
    {o : Option Copy} (h : readRecord py gpus record i = .ok o) (j : Nat) :
    readRecord py gpus record j = .ok o := by
  unfold readRecord at h ⊢
  cases record with
  | obj fields =>
      dsimp only at h ⊢
      split_ifs at h ⊢
      · exact readCopy_index h j
      · exact h
  | _ => cases h

/-!
## What a group holds
-/

def copies (py : Python) (records : List Json) : List Copy := records.filterMap (copyOf py)

def copiesOf (cs : List Copy) (key : String ×ₗ String ×ₗ Int) : List Copy :=
  cs.filter fun c => c.key = key

/-- All samples of the copies with a key. -/
def samplesOf (cs : List Copy) (key : String ×ₗ String ×ₗ Int) : List Json :=
  (copiesOf cs key).flatMap Copy.samples

/-- The first copy with a key gives the concurrency of its group. -/
def groupOf (cs : List Copy) (key : String ×ₗ String ×ₗ Int) : Option Group :=
  (copiesOf cs key).head?.map fun c => ⟨c.concurrency, samplesOf cs key⟩

/-- Copies with the same source, destination and size have the same concurrency. -/
def Agree (cs : List Copy) : Prop :=
  forall c d, c ∈ cs -> d ∈ cs -> c.key = d.key -> c.concurrency = d.concurrency

/-- The groups are those of the copies. -/
structure Pooled (cs : List Copy) (groups : Groups) : Prop where
  agree : Agree cs
  find : forall key, groups.find? key = groupOf cs key

theorem mem_copiesOf {cs : List Copy} {key : String ×ₗ String ×ₗ Int} {c : Copy} :
    c ∈ copiesOf cs key <-> c ∈ cs ∧ c.key = key := by
  unfold copiesOf
  rw [List.mem_filter, decide_eq_true_eq]

theorem copiesOf_append_self (cs : List Copy) (c : Copy) :
    copiesOf (cs ++ [c]) c.key = copiesOf cs c.key ++ [c] := by
  unfold copiesOf
  rw [List.filter_append, List.filter_singleton, decide_eq_true rfl]
  rfl

theorem copiesOf_append_of_ne (cs : List Copy) {c : Copy} {key : String ×ₗ String ×ₗ Int}
    (h : key ≠ c.key) : copiesOf (cs ++ [c]) key = copiesOf cs key := by
  unfold copiesOf
  rw [List.filter_append, List.filter_singleton, decide_eq_false (Ne.symm h)]
  exact List.append_nil _

theorem samplesOf_append_self (cs : List Copy) (c : Copy) :
    samplesOf (cs ++ [c]) c.key = samplesOf cs c.key ++ c.samples := by
  unfold samplesOf
  rw [copiesOf_append_self, List.flatMap_append, List.flatMap_singleton]

theorem groupOf_append_of_ne (cs : List Copy) {c : Copy} {key : String ×ₗ String ×ₗ Int}
    (h : key ≠ c.key) : groupOf (cs ++ [c]) key = groupOf cs key := by
  unfold groupOf samplesOf
  rw [copiesOf_append_of_ne cs h]

/-- The group that a copy joins. -/
theorem groupOf_append_self (cs : List Copy) (c : Copy)
    (h : ((groupOf cs c.key).getD ⟨c.concurrency, []⟩).concurrency = c.concurrency) :
    groupOf (cs ++ [c]) c.key = some ⟨c.concurrency,
      ((groupOf cs c.key).getD ⟨c.concurrency, []⟩).samples ++ c.samples⟩ := by
  unfold groupOf at h ⊢
  rw [samplesOf_append_self, copiesOf_append_self]
  unfold samplesOf
  cases hcs : copiesOf cs c.key with
  | nil => rfl
  | cons d rest =>
      rw [hcs] at h
      have hconcurrency : d.concurrency = c.concurrency := h
      simp [hconcurrency]

theorem groupOf_concurrency {cs : List Copy} (hagree : Agree cs) {c : Copy} (hc : c ∈ cs)
    {g : Group} (hg : groupOf cs c.key = some g) : g.concurrency = c.concurrency := by
  unfold groupOf at hg
  obtain ⟨d, hd, rfl⟩ := Option.map_eq_some_iff.mp hg
  obtain ⟨hmem, hkey⟩ := mem_copiesOf.mp (List.mem_of_mem_head? hd)
  exact hagree d c hmem hc hkey

theorem groupOf_eq_none {cs : List Copy} {key : String ×ₗ String ×ₗ Int} :
    groupOf cs key = none <-> forall c, c ∈ cs -> c.key ≠ key := by
  unfold groupOf
  rw [Option.map_eq_none_iff, List.head?_eq_none_iff, List.eq_nil_iff_forall_not_mem]
  simp only [mem_copiesOf, not_and]

theorem Agree.mono {cs ds : List Copy} (h : Agree ds) (hsub : cs ⊆ ds) : Agree cs :=
  fun c d hc hd => h c d (hsub hc) (hsub hd)

theorem Pooled.empty : Pooled [] OrdMap.empty := by
  constructor
  · intro c d hc
    cases hc
  · intro key
    rfl

/-- A copy that is pooled. -/
theorem Pooled.pool {cs : List Copy} {groups groups' : Groups} {index : Nat} {c : Copy}
    (h : Pooled cs groups) (hpool : poolCopy groups index (some c) = .ok groups') :
    Pooled (cs ++ [c]) groups' := by
  unfold poolCopy Links.pool at hpool
  dsimp only at hpool
  rw [← keyOf, ← Copy.key, h.find c.key] at hpool
  split_ifs at hpool with hconcurrency
  rw [ne_eq, not_not] at hconcurrency
  injection hpool with hpool
  have hnew : forall d, d ∈ cs -> d.key = c.key -> d.concurrency = c.concurrency := by
    intro d hd hkey
    rw [← hconcurrency]
    cases hg : groupOf cs c.key with
    | none => exact absurd hkey (groupOf_eq_none.mp hg d hd)
    | some g => exact (groupOf_concurrency h.agree hd (hkey ▸ hg)).symm
  constructor
  · intro d e hd he hkey
    rw [List.mem_append, List.mem_singleton] at hd he
    cases hd with
    | inl hd =>
        cases he with
        | inl he => exact h.agree d e hd he hkey
        | inr he =>
            rw [he] at hkey ⊢
            exact hnew d hd hkey
    | inr hd =>
        rw [hd] at hkey ⊢
        cases he with
        | inl he => exact (hnew e he hkey.symm).symm
        | inr he => rw [he]
  · intro key
    rw [← hpool, OrdMap.find?_insert]
    split_ifs with hkey
    · rw [hkey, groupOf_append_self cs c hconcurrency]
    · rw [h.find key, groupOf_append_of_ne cs hkey]

theorem Pooled.exists_pool {cs : List Copy} {groups : Groups} (h : Pooled cs groups)
    (index : Nat) {c : Copy} (hagree : Agree (cs ++ [c])) :
    exists groups', poolCopy groups index (some c) = .ok groups' := by
  unfold poolCopy Links.pool
  dsimp only
  rw [← keyOf, ← Copy.key, h.find c.key, if_neg]
  · exact ⟨_, rfl⟩
  · rw [not_not]
    cases hg : groupOf cs c.key with
    | none => rfl
    | some g =>
        obtain ⟨d, hd, hgroup⟩ := Option.map_eq_some_iff.mp hg
        obtain ⟨hmem, hkey⟩ := mem_copiesOf.mp (List.mem_of_mem_head? hd)
        rw [← hgroup]
        exact hagree d c (List.mem_append_left _ hmem) (List.mem_append_right _ (by simp)) hkey

/-!
## The groups of a run
-/

/-- A record that is skipped or holds a copy. -/
def Readable (py : Python) (gpus : StringSet) (record : Json) : Prop :=
  exists o, readRecord py gpus record 0 = .ok o

theorem Readable.read {py : Python} {gpus : StringSet} {record : Json}
    (h : Readable py gpus record) (index : Nat) :
    readRecord py gpus record index = .ok (copyOf py record) := by
  obtain ⟨o, ho⟩ := h
  rw [← readRecord_ok ho]
  exact readRecord_index ho index

theorem copies_append_singleton (py : Python) (records : List Json) (record : Json) :
    copies py (records ++ [record]) = copies py records ++ (copyOf py record).toList := by
  unfold copies
  rw [List.filterMap_append]
  cases hcopy : copyOf py record with
  | none => simp [hcopy]
  | some c => simp [hcopy]

/-- The groups after some of the numbered records. -/
def ReadInto (py : Python) (gpus : StringSet) (done : List (Json × Nat)) (groups : Groups) :
    Prop :=
  (forall record, record ∈ done.map Prod.fst -> Readable py gpus record) ∧
    Pooled (copies py (done.map Prod.fst)) groups

theorem pooled_of_foldlM {py : Python} {gpus : StringSet} {records : List Json} {index : Nat}
    {groups : Groups}
    (h : (records.zipIdx index).foldlM (addRecord py gpus) OrdMap.empty = .ok groups) :
    (forall record, record ∈ records -> Readable py gpus record) ∧
      Pooled (copies py records) groups := by
  have hstep : forall (done : List (Json × Nat)) groups record groups',
      ReadInto py gpus done groups -> addRecord py gpus groups record = .ok groups' ->
        ReadInto py gpus (done ++ [record]) groups' := by
    intro done groups record groups' hdone hadd
    rw [addRecord_eq] at hadd
    obtain ⟨o, ho, hpool⟩ := Fallible.bind_eq_ok.mp hadd
    have hread : Readable py gpus record.1 := ⟨o, readRecord_index ho 0⟩
    constructor
    · intro r hr
      rw [List.map_append, List.mem_append, List.map_singleton, List.mem_singleton] at hr
      cases hr with
      | inl hr => exact hdone.1 r hr
      | inr hr => exact hr ▸ hread
    · rw [List.map_append, List.map_singleton, copies_append_singleton, ← readRecord_ok ho]
      cases o with
      | none =>
          injection hpool with hpool
          rw [Option.toList_none, List.append_nil, ← hpool]
          exact hdone.2
      | some c => exact hdone.2.pool hpool
  have hempty : ReadInto py gpus [] OrdMap.empty := by
    constructor
    · intro record hrecord
      cases hrecord
    · exact Pooled.empty
  have hrun := Fallible.foldlM_prefix hstep hempty h
  unfold ReadInto at hrun
  rw [List.nil_append, List.zipIdx_map_fst] at hrun
  exact hrun

theorem exists_foldlM {py : Python} {gpus : StringSet} {done rest : List Json} {index : Nat}
    {groups : Groups} (hread : forall record, record ∈ rest -> Readable py gpus record)
    (hagree : Agree (copies py (done ++ rest))) (h : Pooled (copies py done) groups) :
    exists groups', (rest.zipIdx index).foldlM (addRecord py gpus) groups = .ok groups' := by
  induction rest generalizing done index groups with
  | nil => exact ⟨groups, rfl⟩
  | cons record rest ih =>
      rw [List.append_cons] at hagree
      have hnext : exists groups', poolCopy groups index (copyOf py record) = .ok groups' ∧
          Pooled (copies py (done ++ [record])) groups' := by
        have hprior : Agree (copies py (done ++ [record])) :=
          hagree.mono (List.filterMap_subset _ (List.subset_append_left _ _))
        rw [copies_append_singleton] at hprior ⊢
        cases hcopy : copyOf py record with
        | none =>
            refine ⟨groups, rfl, ?_⟩
            rw [Option.toList_none, List.append_nil]
            exact h
        | some c =>
            rw [hcopy] at hprior
            obtain ⟨groups', hpool⟩ := h.exists_pool index hprior
            exact ⟨groups', hpool, h.pool hpool⟩
      obtain ⟨groups', hpool, hpooled⟩ := hnext
      rw [List.zipIdx_cons, List.foldlM_cons, addRecord_eq,
        (hread record List.mem_cons_self).read index, Fallible.ok_bind, hpool, Fallible.ok_bind]
      exact ih (fun r hr => hread r (List.mem_cons_of_mem _ hr)) hagree hpooled

/-- Records are pooled exactly when each is readable and copies with one key agree. -/
theorem foldlM_ok_iff {py : Python} {gpus : StringSet} {records : List Json} {index : Nat} :
    (exists groups, (records.zipIdx index).foldlM (addRecord py gpus) OrdMap.empty =
        .ok groups) <->
      (forall record, record ∈ records -> Readable py gpus record) ∧
        Agree (copies py records) := by
  constructor
  · intro h
    obtain ⟨groups, hgroups⟩ := h
    obtain ⟨hread, hpooled⟩ := pooled_of_foldlM hgroups
    exact ⟨hread, hpooled.agree⟩
  · intro h
    have hagree : Agree (copies py ([] ++ records)) := h.2
    exact exists_foldlM h.1 hagree Pooled.empty

/-!
## The links of a run
-/

/-- What the converter says of a key. -/
def linkOf (py : Python) (nvlinked : PairSet) (cs : List Copy)
    (key : String ×ₗ String ×ₗ Int) : Except Failure Link :=
  toLink py nvlinked (key, (groupOf cs key).getD ⟨0, []⟩)

theorem Pooled.mapM_toLink {cs : List Copy} {groups : Groups} (h : Pooled cs groups)
    (py : Python) (nvlinked : PairSet) :
    groups.entries.mapM (toLink py nvlinked) = groups.keys.mapM (linkOf py nvlinked cs) := by
  unfold OrdMap.keys
  rw [List.mapM_map]
  apply Fallible.mapM_congr
  intro e he
  have hfind : groups.find? e.1 = some e.2 := OrdMap.mem_entries.mp he
  show toLink py nvlinked e = linkOf py nvlinked cs e.1
  unfold linkOf
  rw [← h.find e.1, hfind]
  rfl

theorem Pooled.mem_keys {cs : List Copy} {groups : Groups} (h : Pooled cs groups)
    {key : String ×ₗ String ×ₗ Int} :
    key ∈ groups.keys <-> exists c, c ∈ cs ∧ c.key = key := by
  rw [OrdMap.mem_keys]
  unfold OrdMap.contains
  rw [h.find key, ← Option.ne_none_iff_isSome, ne_eq, groupOf_eq_none]
  push Not
  rfl

theorem toLink_key {py : Python} {nvlinked : PairSet}
    {entry : (String ×ₗ String ×ₗ Int) × Group} {l : Link}
    (h : toLink py nvlinked entry = .ok l) :
    l.key = entry.1 ∧ l.samples = entry.2.samples.length ∧
      l.bwMbps = py.bwMbps entry.2.samples := by
  unfold toLink at h
  dsimp only at h
  split_ifs at h
  injection h with h
  rw [← h]
  exact ⟨rfl, rfl, rfl⟩

theorem samplesOf_perm {cs ds : List Copy} (h : cs.Perm ds) (key : String ×ₗ String ×ₗ Int) :
    (samplesOf cs key).Perm (samplesOf ds key) :=
  (h.filter _).flatMap_right _

/-- The group of a key in another order of the copies. -/
theorem groupOf_perm {cs ds : List Copy} (h : cs.Perm ds) (hagree : Agree cs)
    {key : String ×ₗ String ×ₗ Int} {g : Group} (hg : groupOf cs key = some g) :
    exists g', groupOf ds key = some g' ∧ g'.concurrency = g.concurrency ∧
      g.samples.Perm g'.samples := by
  unfold groupOf at hg
  obtain ⟨c, hc, rfl⟩ := Option.map_eq_some_iff.mp hg
  obtain ⟨hmem, hkey⟩ := mem_copiesOf.mp (List.mem_of_mem_head? hc)
  have hds : Agree ds := hagree.mono h.symm.subset
  cases hg' : groupOf ds key with
  | none => exact absurd hkey (groupOf_eq_none.mp hg' c (h.subset hmem))
  | some g' =>
      refine ⟨g', rfl, groupOf_concurrency hds (h.subset hmem) (hkey ▸ hg'), ?_⟩
      unfold groupOf at hg'
      obtain ⟨d, _, rfl⟩ := Option.map_eq_some_iff.mp hg'
      exact samplesOf_perm h key

/-- What the converter says of a key does not depend on the order of the copies. -/
theorem linkOf_perm {py : Python} {nvlinked : PairSet} {cs ds : List Copy} (h : cs.Perm ds)
    (hagree : Agree cs) {key : String ×ₗ String ×ₗ Int}
    (hkey : exists c, c ∈ cs ∧ c.key = key) :
    linkOf py.exact nvlinked cs key = linkOf py.exact nvlinked ds key := by
  unfold linkOf
  cases hg : groupOf cs key with
  | none =>
      obtain ⟨c, hc, hck⟩ := hkey
      exact absurd hck (groupOf_eq_none.mp hg c hc)
  | some g =>
      obtain ⟨g', hg', hconcurrency, hsamples⟩ := groupOf_perm h hagree hg
      have hbw : py.exact.bwMbps g.samples = py.exact.bwMbps g'.samples :=
        exactMbps_perm hsamples
      rw [hg', Option.getD_some, Option.getD_some]
      unfold toLink
      dsimp only
      rw [hconcurrency, hbw, hsamples.length_eq]

/-- The links have one entry for each key of the copies, with all samples of that key. -/
structure Describes (py : Python) (records : List Json) (links : List Link) : Prop where
  nodup : (links.map Link.key).Nodup
  keys : forall key, key ∈ links.map Link.key <->
    exists c, c ∈ copies py records ∧ c.key = key
  samples : forall l, l ∈ links -> l.samples = (samplesOf (copies py records) l.key).length
  bwMbps : forall l, l ∈ links -> l.bwMbps = py.bwMbps (samplesOf (copies py records) l.key)

theorem keys_of_mapM {py : Python} {nvlinked : PairSet} {cs : List Copy}
    {keys : List (String ×ₗ String ×ₗ Int)} {links : List Link}
    (h : keys.mapM (linkOf py nvlinked cs) = .ok links) : links.map Link.key = keys := by
  rw [Fallible.mapM_eq_ok] at h
  induction h with
  | nil => rfl
  | cons hl _ ih => rw [List.map_cons, ih, (toLink_key hl).1]

theorem Pooled.describes {py : Python} {nvlinked : PairSet} {records : List Json}
    {groups : Groups} (h : Pooled (copies py records) groups) {links : List Link}
    (hlinks : groups.entries.mapM (toLink py nvlinked) = .ok links) :
    Describes py records links := by
  rw [h.mapM_toLink] at hlinks
  have hkeys := keys_of_mapM hlinks
  have hread : forall l, l ∈ links ->
      l.samples = (samplesOf (copies py records) l.key).length ∧
        l.bwMbps = py.bwMbps (samplesOf (copies py records) l.key) := by
    intro l hl
    obtain ⟨key, hkey, hto⟩ := Fallible.forall₂_mem_right (Fallible.mapM_eq_ok.mp hlinks) hl
    obtain ⟨hlkey, hsamples, hbw⟩ := toLink_key hto
    dsimp only at hlkey hsamples hbw
    obtain ⟨c, hc, hck⟩ := h.mem_keys.mp hkey
    rw [hsamples, hbw, hlkey]
    cases hg : groupOf (copies py records) key with
    | none => exact absurd hck (groupOf_eq_none.mp hg c hc)
    | some g =>
        unfold groupOf at hg
        obtain ⟨d, _, rfl⟩ := Option.map_eq_some_iff.mp hg
        exact ⟨rfl, rfl⟩
  constructor
  · rw [hkeys]
    exact OrdMap.keys_nodup groups
  · intro key
    rw [hkeys]
    exact h.mem_keys
  · intro l hl
    exact (hread l hl).1
  · intro l hl
    exact (hread l hl).2

/-- The links of the records in another order. -/
theorem ok_of_perm {py : Python} {nvml : Option Json} {records records' : List Json}
    (h : records.Perm records') {links : List Link}
    (hlinks : linksFromRecords py.exact records nvml = .ok links) :
    linksFromRecords py.exact records' nvml = .ok links := by
  unfold linksFromRecords at hlinks ⊢
  obtain ⟨found, hfound, hlinks⟩ := Fallible.bind_eq_ok.mp hlinks
  obtain ⟨groups, hgroups, hlinks⟩ := Fallible.bind_eq_ok.mp hlinks
  obtain ⟨hread, hpooled⟩ := pooled_of_foldlM hgroups
  have hcopies : (copies py.exact records).Perm (copies py.exact records') :=
    h.filterMap _
  have hagree := hpooled.agree
  obtain ⟨groups', hgroups'⟩ := foldlM_ok_iff.mpr
    ⟨fun record hrecord => hread record (h.symm.subset hrecord),
      hagree.mono hcopies.symm.subset⟩
  obtain ⟨_, hpooled'⟩ := pooled_of_foldlM hgroups'
  rw [hfound, Fallible.ok_bind]
  dsimp only
  rw [hgroups', Fallible.ok_bind, hpooled'.mapM_toLink, ← hlinks, hpooled.mapM_toLink]
  have hkeys : groups'.keys = groups.keys := by
    apply OrdMap.keys_congr
    intro key
    rw [← OrdMap.mem_keys, ← OrdMap.mem_keys, hpooled'.mem_keys, hpooled.mem_keys]
    simp only [hcopies.mem_iff]
  rw [hkeys]
  apply Fallible.mapM_congr
  intro key hkey
  exact (linkOf_perm hcopies hagree (hpooled.mem_keys.mp hkey)).symm

theorem describes_of_ok {py : Python} {nvml : Option Json} {records : List Json}
    {links : List Link} (hlinks : linksFromRecords py records nvml = .ok links) :
    Describes py records links := by
  unfold linksFromRecords at hlinks
  obtain ⟨found, _, hlinks⟩ := Fallible.bind_eq_ok.mp hlinks
  obtain ⟨groups, hgroups, hlinks⟩ := Fallible.bind_eq_ok.mp hlinks
  exact (pooled_of_foldlM hgroups).2.describes hlinks

/--
With exact samples the links of the records are those of any other order of them, or no
order has links.  They have one entry for each source, destination and size, with all its
samples.
-/
theorem linksFromRecords_perm (py : Python) (nvml : Option Json) {records records' : List Json}
    (h : records.Perm records') :
    (forall links, linksFromRecords py.exact records nvml = .ok links <->
      linksFromRecords py.exact records' nvml = .ok links) ∧
    forall links, linksFromRecords py.exact records nvml = .ok links ->
      Describes py.exact records links := by
  constructor
  · intro links
    constructor
    · exact ok_of_perm h
    · exact ok_of_perm h.symm
  · intro links hlinks
    exact describes_of_ok hlinks

/-- A measured copy from the second GPU to the first. -/
def returnCopy : Json :=
  .obj [("bench", .str "p2p_copy"),
    ("devices", .obj [("dst_bus", .str "0000:01:00.0"), ("src_bus", .str "0000:02:00.0")]),
    ("params", .obj [("bytes", .int 1048576), ("concurrency", .int 1),
      ("direction", .str "0->1")]),
    ("samples", .arr [.int 30]), ("unit", .str "GB/s")]

theorem linksFromRecords_perm_pair :
    [oneCopy, returnCopy, oneCopy].Perm [returnCopy, oneCopy, oneCopy] ∧
      (forall links,
        linksFromRecords plainPython.exact [oneCopy, returnCopy, oneCopy]
            (some oneSidedFacts.nvml) = .ok links <->
          linksFromRecords plainPython.exact [returnCopy, oneCopy, oneCopy]
            (some oneSidedFacts.nvml) = .ok links) ∧
      forall links,
        linksFromRecords plainPython.exact [oneCopy, returnCopy, oneCopy]
            (some oneSidedFacts.nvml) = .ok links ->
          Describes plainPython.exact [oneCopy, returnCopy, oneCopy] links :=
  ⟨List.Perm.swap _ _ _, linksFromRecords_perm plainPython (some oneSidedFacts.nvml)
    (List.Perm.swap _ _ _)⟩

example : linksFromRecords plainPython.exact [oneCopy, returnCopy, oneCopy]
    (some oneSidedFacts.nvml) = .ok
      [⟨"0000:01:00.0", "0000:02:00.0", "nvlink", 25000, 1048576, 1, 2⟩,
        ⟨"0000:02:00.0", "0000:01:00.0", "nvlink", 30000, 1048576, 1, 1⟩] := by decide +kernel

end Links
end Dev
end Ostia

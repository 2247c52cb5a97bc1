import Ostia.Topology.Builder
import Ostia.Topology.Identity.Canonical

/-!
# Validated documents are safe to build from

The schemas promise every member that the builder reads.  On validated
documents and PCI facts with known parents, building and identifying a machine
ends with a result or with one of the library's own errors.
-/

namespace Ostia
namespace Topology

open Foundation
open Schema (Env Accepts)

namespace Builder

/-!
## Sane computations
-/

/-- A computation that fails only with the library's own errors. -/
def Sane {A : Type*} (r : Except Fault A) : Prop :=
  forall f, r = .error f -> exists e, f = .topology e

theorem Sane.ok {A : Type*} (a : A) : Sane (.ok a : Except Fault A) := by
  intro f h
  cases h

theorem Sane.bind {A B : Type} {x : Except Fault A} {f : A -> Except Fault B}
    (hx : Sane x) (hf : forall a, x = .ok a -> Sane (f a)) : Sane (x >>= f) := by
  cases hxa : x with
  | error e =>
      intro fault h
      cases h
      exact hx e hxa
  | ok a => exact hf a hxa

theorem Sane.mapM {A B : Type} {f : A -> Except Fault B} {xs : List A}
    (h : forall x, x ∈ xs -> Sane (f x)) : Sane (xs.mapM f) := by
  intro fault herr
  rcases Fallible.exists_of_mapM_eq_error herr with ⟨x, hx, hfx⟩
  exact h x hx fault hfx

/-!
## Reading validated documents
-/

theorem member_of_get? {j v : Json} {key : String} (h : j.get? key = some v) :
    member j key = .ok v := by
  cases j with
  | obj fields =>
      have hlookup : OrdMap.lookup key fields = some v := h
      unfold member
      simp only [hlookup]
  | _ => cases h

theorem stringMember_of_get? {j : Json} {key s : String}
    (h : j.get? key = some (Json.str s)) : stringMember j key = .ok s := by
  unfold stringMember
  rw [member_of_get? h]
  rfl

theorem integerMember_of_get? {j : Json} {key : String} {n : Int}
    (h : j.get? key = some (Json.int n)) :
    integerMember j key = .ok (n.bmod (2 ^ 64)) := by
  unfold integerMember
  rw [member_of_get? h]
  rfl

/-- One NVLink record as the schema promises it. -/
structure LinkDoc (l : Json) : Prop where
  state : exists s, l.get? "state" = some (Json.str s)
  remoteType : exists s, l.get? "remote_type" = some (Json.str s)
  remote : forall v, l.get? "remote_bus_id" = some v -> exists s, v = Json.str s
  isObject : exists fields, l = Json.obj fields

/-- One GPU record as the schema promises it. -/
structure GpuDoc (g : Json) : Prop where
  busId : exists s, g.get? "bus_id" = some (Json.str s)
  name : exists s, g.get? "name" = some (Json.str s)
  ccMajor : exists n, g.get? "cc_major" = some (Json.int n)
  ccMinor : exists n, g.get? "cc_minor" = some (Json.int n)
  memoryBytes : exists n, g.get? "memory_bytes" = some (Json.int n)
  cudaOrdinal : exists n, g.get? "cuda_ordinal" = some (Json.int n)
  nvlinks : exists v, g.get? "nvlinks" = some v ∧
    forall ls, v = Json.arr ls -> forall l, l ∈ ls -> LinkDoc l

/-- One NIC record as the schema promises it. -/
structure NicDoc (n : Json) : Prop where
  busId : exists s, n.get? "bus_id" = some (Json.str s)
  driver : exists s, n.get? "driver" = some (Json.str s)
  linkLayer : exists s, n.get? "link_layer" = some (Json.str s)
  numaNode : exists k, n.get? "numa_node" = some (Json.int k)
  portSpeed : exists v, n.get? "port_speed_mbps" = some v ∧
    ((exists s, v = Json.str s) ∨ exists k, v = Json.int k)

section Documents

variable {env : Env} {doc : Json}

theorem string_member {schema : Schema} (h : Accepts env schema doc)
    (hobject : schema.type = some (.one "object")) {key : String}
    (hkey : key ∈ schema.required) {sub : Schema}
    (hsub : OrdMap.lookup key schema.properties = some sub)
    (htype : sub.type = some (.one "string")) :
    exists s, doc.get? key = some (Json.str s) := by
  rcases h.member hobject hkey hsub with ⟨v, hget, hv⟩
  rcases hv.string htype with ⟨s, rfl, _⟩
  exact ⟨s, hget⟩

theorem integer_member {schema : Schema} (h : Accepts env schema doc)
    (hobject : schema.type = some (.one "object")) {key : String}
    (hkey : key ∈ schema.required) {sub : Schema}
    (hsub : OrdMap.lookup key schema.properties = some sub)
    (htype : sub.type = some (.one "integer")) :
    exists n, doc.get? key = some (Json.int n) := by
  rcases h.member hobject hkey hsub with ⟨v, hget, hv⟩
  rcases hv.integer htype with ⟨n, rfl⟩
  exact ⟨n, hget⟩

theorem enum_member {schema : Schema} (h : Accepts env schema doc)
    (hobject : schema.type = some (.one "object")) {key : String}
    (hkey : key ∈ schema.required) {values : List String}
    (hsub : OrdMap.lookup key schema.properties = some (Schema.ofEnum values)) :
    exists s, s ∈ values ∧ doc.get? key = some (Json.str s) := by
  rcases h.member hobject hkey hsub with ⟨v, hget, hv⟩
  rcases hv.enum with ⟨s, hs, rfl⟩
  exact ⟨s, hs, hget⟩

theorem linkDoc_of_accepts {required : List String}
    (hstate : "state" ∈ required) (htype : "remote_type" ∈ required)
    (h : Accepts env (Schema.document Schema.nvlinkProperties required) doc) :
    LinkDoc doc := by
  constructor
  · rcases enum_member h rfl hstate rfl with ⟨s, _, hs⟩
    exact ⟨s, hs⟩
  · rcases enum_member h rfl htype rfl with ⟨s, _, hs⟩
    exact ⟨s, hs⟩
  · intro v hv
    have hbus : Accepts env Schema.busId v := h.member_of_get? hv rfl
    rcases hbus.string rfl with ⟨s, hs, _⟩
    exact ⟨s, hs⟩
  · exact h.object rfl

theorem nvlinks_of_accepts (h : Accepts env Schema.nvlinks doc) {ls : List Json}
    (hls : doc = Json.arr ls) : forall l, l ∈ ls -> LinkDoc l := by
  rcases h.oneOf rfl (by simp) with ⟨branch, hmem, hbranch⟩
  simp only [List.mem_cons, List.not_mem_nil, or_false] at hmem
  rcases hmem with hmem | hmem
  · subst hmem
    rcases hbranch.items rfl rfl with ⟨xs, hxs, hall⟩
    rw [hls, Json.arr.injEq] at hxs
    subst hxs
    intro l hl
    exact linkDoc_of_accepts (by simp) (by simp) (hall l hl)
  · subst hmem
    have hconst := hbranch.const rfl
    rw [hls] at hconst
    cases hconst

theorem gpuDoc_of_accepts {required : List String}
    (hrequired : forall key, key ∈ ["bus_id", "name", "cc_major", "cc_minor",
      "memory_bytes", "cuda_ordinal", "nvlinks"] -> key ∈ required)
    (h : Accepts env (Schema.document Schema.gpuProperties required) doc) :
    GpuDoc doc := by
  constructor
  · exact string_member h rfl (hrequired _ (by simp)) rfl rfl
  · exact string_member h rfl (hrequired _ (by simp)) rfl rfl
  · exact integer_member h rfl (hrequired _ (by simp)) rfl rfl
  · exact integer_member h rfl (hrequired _ (by simp)) rfl rfl
  · exact integer_member h rfl (hrequired _ (by simp)) rfl rfl
  · exact integer_member h rfl (hrequired _ (by simp)) rfl rfl
  · have hsub : OrdMap.lookup "nvlinks" Schema.gpuProperties = some Schema.nvlinks := rfl
    rcases h.member rfl (hrequired "nvlinks" (by simp)) hsub with ⟨v, hget, hv⟩
    exact ⟨v, hget, fun ls hls => nvlinks_of_accepts hv hls⟩

/-- The GPUs of a document that the schema accepts; their bus IDs match the pattern. -/
theorem gpus_of_accepts (h : Accepts env Schema.nvml doc) :
    exists gs, doc.get? "gpus" = some (Json.arr gs) ∧ forall g, g ∈ gs -> GpuDoc g ∧
      forall s, g.get? "bus_id" = some (Json.str s) ->
        env.regexSearch Schema.busIdPattern s = true := by
  have hkey : "gpus" ∈ Schema.nvml.required := by
    simp [Schema.nvml, Schema.document]
  rcases h.member rfl hkey rfl with ⟨v, hget, hv⟩
  rcases hv.items rfl rfl with ⟨gs, rfl, hall⟩
  refine ⟨gs, hget, fun g hg => ⟨gpuDoc_of_accepts (fun _ hk => hk) (hall g hg), ?_⟩⟩
  intro s hs
  have hbus : Accepts env Schema.busId (Json.str s) := (hall g hg).member_of_get? hs rfl
  rcases hbus.string rfl with ⟨s', hs', hpattern⟩
  rw [Json.str.inj hs']
  exact hpattern Schema.busIdPattern rfl

theorem portSpeed_of_accepts (h : Accepts env Schema.portSpeed doc) :
    (exists s, doc = Json.str s) ∨ exists k, doc = Json.int k := by
  rcases h.oneOf rfl (by simp) with ⟨branch, hmem, hbranch⟩
  simp only [List.mem_cons, List.not_mem_nil, or_false] at hmem
  rcases hmem with hmem | hmem
  · subst hmem
    exact Or.inr (hbranch.integer rfl)
  · subst hmem
    exact Or.inl ⟨"unknown", hbranch.const rfl⟩

theorem nicDoc_of_accepts {required : List String}
    (hrequired : forall key, key ∈ ["bus_id", "driver", "link_layer", "numa_node",
      "port_speed_mbps"] -> key ∈ required)
    (h : Accepts env (Schema.document Schema.nicProperties required) doc) :
    NicDoc doc := by
  constructor
  · exact string_member h rfl (hrequired _ (by simp)) rfl rfl
  · exact string_member h rfl (hrequired _ (by simp)) rfl rfl
  · rcases enum_member h rfl (hrequired "link_layer" (by simp)) rfl with ⟨s, _, hs⟩
    exact ⟨s, hs⟩
  · exact integer_member h rfl (hrequired _ (by simp)) rfl rfl
  · have hsub : OrdMap.lookup "port_speed_mbps" Schema.nicProperties =
        some Schema.portSpeed := rfl
    rcases h.member rfl (hrequired "port_speed_mbps" (by simp)) hsub with ⟨v, hget, hv⟩
    exact ⟨v, hget, portSpeed_of_accepts hv⟩

end Documents

/-- What the schemas promise of the two documents of a machine. -/
structure Documents (facts : Facts) : Prop where
  gpus : facts.nvml.isObject = true -> exists gs,
    facts.nvml.get? "gpus" = some (Json.arr gs) ∧ forall g, g ∈ gs -> GpuDoc g
  rdma : exists rs, facts.nics.get? "rdma" = some (Json.arr rs) ∧
    forall r, r ∈ rs -> exists s, r.get? "bus_id" = some (Json.str s)
  nics : exists ns, facts.nics.get? "nics" = some (Json.arr ns) ∧
    forall n, n ∈ ns -> NicDoc n
  probe : exists s, facts.nics.get? "rdma_probe" = some (Json.str s)

/-- The documents of a machine pass validation; nvml.json may be absent. -/
structure Validated (env : Env) (facts : Facts) : Prop where
  nvml : facts.nvml = Json.null ∨ Schema.validate env Schema.nvml facts.nvml = []
  nics : Schema.validate env Schema.nics facts.nics = []

theorem Validated.documents {env : Env} {facts : Facts} (h : Validated env facts) :
    Documents facts := by
  have hnics : Accepts env Schema.nics facts.nics := ⟨"", h.nics⟩
  constructor
  · intro hobject
    rcases h.nvml with hnull | hvalid
    · rw [hnull] at hobject
      cases hobject
    · rcases gpus_of_accepts ⟨"", hvalid⟩ with ⟨gs, hget, hall⟩
      exact ⟨gs, hget, fun g hg => (hall g hg).1⟩
  · have hkey : "rdma" ∈ Schema.nics.required := by
      simp [Schema.nics, Schema.document]
    rcases hnics.member rfl hkey rfl with ⟨v, hget, hv⟩
    rcases hv.items rfl rfl with ⟨rs, rfl, hall⟩
    refine ⟨rs, hget, fun r hr => ?_⟩
    exact string_member (hall r hr) rfl (by simp) rfl rfl
  · have hkey : "nics" ∈ Schema.nics.required := by
      simp [Schema.nics, Schema.document]
    rcases hnics.member rfl hkey rfl with ⟨v, hget, hv⟩
    rcases hv.items rfl rfl with ⟨ns, rfl, hall⟩
    refine ⟨ns, hget, fun n hn => nicDoc_of_accepts ?_ (hall n hn)⟩
    intro key hk
    simp only [List.mem_cons, List.not_mem_nil, or_false] at hk ⊢
    tauto
  · have hkey : "rdma_probe" ∈ Schema.nics.required := by
      simp [Schema.nics, Schema.document]
    rcases enum_member hnics rfl hkey rfl with ⟨s, _, hs⟩
    exact ⟨s, hs⟩

/-!
## Devices
-/

theorem findDevice_eq_ok {pci : OrdMap String PciFacts} {id file : String}
    {p : PciFacts} :
    findDevice pci id file = .ok p <-> pci.find? id = some p ∧ p.bridge = false := by
  unfold findDevice
  cases hfind : pci.find? id with
  | none => simp
  | some q =>
      cases hbridge : q.bridge with
      | true =>
          constructor
          · intro h
            simp [hbridge] at h
          · intro h
            rw [← Option.some_inj.mp h.1, hbridge] at h
            cases h.2
      | false =>
          constructor
          · intro h
            simp only [hbridge, Bool.false_eq_true, if_false, Except.ok.injEq] at h
            rw [← h]
            exact ⟨rfl, hbridge⟩
          · intro h
            simp only [hbridge, Bool.false_eq_true, if_false, Except.ok.injEq]
            exact Option.some_inj.mp h.1

theorem findDevice_sane (pci : OrdMap String PciFacts) (id file : String) :
    Sane (findDevice pci id file) := by
  intro f h
  unfold findDevice at h
  split at h
  · split_ifs at h
    injection h with h
    exact ⟨_, h.symm⟩
  · injection h with h
    exact ⟨_, h.symm⟩

theorem gpuNode_eq {g : Json} (h : GpuDoc g) :
    exists id attrs, g.get? "bus_id" = some (Json.str id) ∧
      forall pci, gpuNode pci g = (findDevice pci id "nvml.json" >>= fun _ =>
        .ok ⟨NodeKind.gpu, id, attrs⟩) := by
  rcases h.busId with ⟨id, hid⟩
  rcases h.name with ⟨name, hname⟩
  rcases h.ccMajor with ⟨major, hmajor⟩
  rcases h.ccMinor with ⟨minor, hminor⟩
  rcases h.memoryBytes with ⟨memory, hmemory⟩
  rcases h.cudaOrdinal with ⟨ordinal, hordinal⟩
  refine ⟨id, gpuAttrs name (major.bmod (2 ^ 64)) (minor.bmod (2 ^ 64))
    (memory.bmod (2 ^ 64)) (ordinal.bmod (2 ^ 64)), hid, ?_⟩
  intro pci
  unfold gpuNode
  rw [stringMember_of_get? hid, stringMember_of_get? hname,
    integerMember_of_get? hmajor, integerMember_of_get? hminor,
    integerMember_of_get? hmemory, integerMember_of_get? hordinal]
  rfl

theorem nicNode_eq {n nics : Json} (rdma : StringSet) (h : NicDoc n) {probe : String}
    (hprobe : nics.get? "rdma_probe" = some (Json.str probe)) :
    exists id, n.get? "bus_id" = some (Json.str id) ∧
      exists attrs : PciFacts -> OrdMap String Value,
        forall pci, nicNode pci nics rdma n = (findDevice pci id "nics.json" >>= fun dev =>
          .ok ⟨NodeKind.nic, id, attrs dev⟩) := by
  rcases h.busId with ⟨id, hid⟩
  rcases h.driver with ⟨driver, hdriver⟩
  rcases h.linkLayer with ⟨layer, hlayer⟩
  rcases h.numaNode with ⟨numa, hnuma⟩
  rcases h.portSpeed with ⟨speed, hspeed, hvalue⟩
  have hread : exists value, valueOf speed = .ok value := by
    rcases hvalue with ⟨s, rfl⟩ | ⟨k, rfl⟩
    · exact ⟨_, rfl⟩
    · exact ⟨_, rfl⟩
  rcases hread with ⟨value, hread⟩
  refine ⟨id, hid, fun dev => nicAttrs dev driver layer (numa.bmod (2 ^ 64)) value probe
    (rdma.contains id), ?_⟩
  intro pci
  unfold nicNode
  rw [stringMember_of_get? hid, stringMember_of_get? hdriver,
    stringMember_of_get? hlayer, integerMember_of_get? hnuma, member_of_get? hspeed,
    stringMember_of_get? hprobe]
  simp only [bind, Except.bind, hread]
  rfl

/-!
## Bridges
-/

/-- Every parent that is named is known. -/
def ParentsKnown (pci : OrdMap String PciFacts) : Prop :=
  forall k p, pci.find? k = some p -> p.parentKey = "" ∨
    (pci.find? p.parentKey).isSome

theorem keepAncestors_ok {pci : OrdMap String PciFacts} (h : ParentsKnown pci) :
    forall fuel k kept, k = "" ∨ (pci.find? k).isSome ->
      exists kept', keepAncestors pci fuel k kept = .ok kept' := by
  intro fuel
  induction fuel with
  | zero =>
      intro k kept _
      exact ⟨kept, rfl⟩
  | succ fuel ih =>
      intro k kept hk
      rw [keepAncestors]
      split_ifs with hempty hkept
      · exact ⟨kept, rfl⟩
      · exact ⟨kept, rfl⟩
      · rcases hk with hk | hk
        · exact absurd hk hempty
        · rcases Option.isSome_iff_exists.mp hk with ⟨p, hp⟩
          rw [hp]
          exact ih p.parentKey _ (h k p hp)

theorem keepBridges_ok {pci : OrdMap String PciFacts} (h : ParentsKnown pci)
    {leaves : StringSet} (hleaves : forall l, l ∈ leaves.keys -> (pci.find? l).isSome) :
    exists kept, keepBridges pci leaves = .ok kept := by
  apply Fallible.exists_foldlM_eq_ok
  intro leaf hleaf kept
  rcases Option.isSome_iff_exists.mp (hleaves leaf hleaf) with ⟨p, hp⟩
  unfold keepLeaf
  rw [hp]
  exact keepAncestors_ok h _ _ _ (h leaf p hp)

/-!
## NVLinks
-/

theorem isStr_iff {j : Json} {s : String} : isStr j s = true <-> j = Json.str s := by
  cases j with
  | str t => simp [isStr]
  | _ => simp [isStr]

/-- Whether a member of a record is the given string. -/
def memberIs (l : Json) (key value : String) : Bool :=
  match l.get? key with
  | some v => isStr v value
  | none => false

/-- The far end that a record names, empty when it names none. -/
def remoteName (l : Json) : String :=
  match l.get? "remote_bus_id" with
  | some (.str s) => s
  | _ => ""

/-- What a record reports, before the far end is looked up. -/
def reportOf (l : Json) : LinkReport :=
  if memberIs l "state" "active" then
    if memberIs l "remote_type" "switch" then .toSwitch
    else if memberIs l "remote_type" "gpu" then .toGpu (remoteName l)
    else .unused
  else .unused

/-- The error for a far end that is no GPU of the document. -/
def unknownRemote (self remote : String) : Fault :=
  .topology ⟨"dangling_reference", "nvml.json",
    "nvlink remote " ++ remote ++ " of " ++ self ++ " is not a GPU in nvml.json"⟩

/-- The far end of a report is looked up among the GPUs. -/
def checkReport (gpuKeys : StringSet) (self : String) :
    LinkReport -> Except Fault LinkReport
  | .toGpu remote =>
      if gpuKeys.contains remote then .ok (.toGpu remote)
      else .error (unknownRemote self remote)
  | r => .ok r

theorem stringValue_eq {l : Json} (h : LinkDoc l) :
    stringValue l "remote_bus_id" "" = .ok (remoteName l) := by
  rcases h.isObject with ⟨fields, hl⟩
  subst hl
  have hremote := h.remote
  unfold stringValue remoteName
  have hget : (Json.obj fields).get? "remote_bus_id" =
      OrdMap.lookup "remote_bus_id" fields := rfl
  rw [hget] at hremote ⊢
  cases hlookup : OrdMap.lookup "remote_bus_id" fields with
  | none => simp only [hlookup]
  | some v =>
      rcases hremote v hlookup with ⟨s, hs⟩
      subst hs
      simp only [hlookup, asString]

theorem readLink_eq {l : Json} (h : LinkDoc l) (gpuKeys : StringSet) (self : String) :
    readLink gpuKeys self l = checkReport gpuKeys self (reportOf l) := by
  rcases h.state with ⟨state, hstate⟩
  rcases h.remoteType with ⟨type, htype⟩
  unfold readLink reportOf memberIs
  rw [member_of_get? hstate, member_of_get? htype, hstate, htype, stringValue_eq h]
  simp only [bind, Except.bind]
  by_cases hactive : isStr (Json.str state) "active" = true
  · by_cases hswitch : isStr (Json.str type) "switch" = true
    · simp [hactive, hswitch, checkReport, pure, Except.pure]
    · by_cases hgpu : isStr (Json.str type) "gpu" = true
      · simp [hactive, hswitch, hgpu, checkReport, unknownRemote, pure, Except.pure]
      · simp [hactive, hswitch, hgpu, checkReport, pure, Except.pure]
  · simp [hactive, checkReport, pure, Except.pure]

theorem checkReport_sane (gpuKeys : StringSet) (self : String) (r : LinkReport) :
    Sane (checkReport gpuKeys self r) := by
  cases r with
  | toGpu remote =>
      intro f h
      simp only [checkReport] at h
      split_ifs at h
      injection h with h
      exact ⟨_, h.symm⟩
  | _ => exact Sane.ok _

/-- The records of a GPU that has an array of them. -/
def linksOf (g : Json) : Option (List Json) :=
  match g.get? "nvlinks" with
  | some (.arr ls) => some ls
  | _ => none

theorem gpuReports_eq {g : Json} (h : GpuDoc g) (gpuKeys : StringSet) {id : String}
    (hid : g.get? "bus_id" = some (Json.str id)) :
    gpuReports gpuKeys g =
      match linksOf g with
      | some ls => (ls.mapM (fun l => checkReport gpuKeys id (reportOf l)) >>=
          fun reports => .ok (some (id, reports)))
      | none => .ok none := by
  rcases h.nvlinks with ⟨v, hv, hlinks⟩
  unfold gpuReports linksOf
  rw [member_of_get? hv, hv, stringMember_of_get? hid]
  cases v with
  | arr ls =>
      have hread : ls.mapM (readLink gpuKeys id) =
          ls.mapM (fun l => checkReport gpuKeys id (reportOf l)) :=
        Fallible.mapM_congr (fun l hl => readLink_eq (hlinks ls rfl l hl) gpuKeys id)
      simp only [bind, Except.bind]
      rw [hread]
      rfl
  | _ => rfl

theorem linkTables_sane {gpus : List Json} (h : forall g, g ∈ gpus -> GpuDoc g)
    (gpuKeys : StringSet) : Sane (linkTables gpuKeys gpus) := by
  unfold linkTables
  apply Sane.bind
  · apply Sane.mapM
    intro g hg
    rcases (h g hg).busId with ⟨id, hid⟩
    rw [gpuReports_eq (h g hg) gpuKeys hid]
    cases linksOf g with
    | none => exact Sane.ok none
    | some ls =>
        apply Sane.bind
        · exact Sane.mapM (fun l _ => checkReport_sane gpuKeys id (reportOf l))
        · intro reports _
          exact Sane.ok _
  · intro rows _
    exact Sane.ok _

/-!
## Building
-/

theorem gpuEntries_eq {facts : Facts} (h : Documents facts) :
    exists gpus, gpuEntries facts = .ok gpus ∧ forall g, g ∈ gpus -> GpuDoc g := by
  unfold gpuEntries
  cases hobject : facts.nvml.isObject with
  | false => exact ⟨[], rfl, fun g hg => by cases hg⟩
  | true =>
      rcases h.gpus hobject with ⟨gs, hget, hall⟩
      refine ⟨gs, ?_, hall⟩
      rw [if_pos rfl, member_of_get? hget]
      rfl

theorem setOf_contains {keys : List String} {k : String} :
    (setOf keys).contains k = true <-> k ∈ keys := by
  unfold setOf
  rw [OrdMap.contains_foldl_insert]
  simp [OrdMap.contains]

theorem byKey_find? (facts : Facts) (k : String) :
    (forall p, (byKey facts).find? k = some p -> p ∈ facts.pci ∧ p.key = k) ∧
      (k ∈ facts.pci.map PciFacts.key -> ((byKey facts).find? k).isSome) := by
  have hfold : forall (ps : List PciFacts) (m : OrdMap String PciFacts),
      (forall p, (ps.foldl (fun m p => m.insert p.key p) m).find? k = some p ->
        m.find? k = some p ∨ (p ∈ ps ∧ p.key = k)) ∧
      ((m.find? k).isSome ∨ k ∈ ps.map PciFacts.key ->
        ((ps.foldl (fun m p => m.insert p.key p) m).find? k).isSome) := by
    intro ps
    induction ps with
    | nil =>
        intro m
        simp
    | cons q rest ih =>
        intro m
        rcases ih (m.insert q.key q) with ⟨hfrom, hsome⟩
        constructor
        · intro p hp
          rcases hfrom p hp with hp | hp
          · rw [OrdMap.find?_insert] at hp
            split_ifs at hp with hk
            · rw [Option.some_inj] at hp
              exact Or.inr ⟨by rw [hp]; exact List.mem_cons_self, by rw [← hp, hk]⟩
            · exact Or.inl hp
          · exact Or.inr ⟨List.mem_cons_of_mem q hp.1, hp.2⟩
        · intro hk
          apply hsome
          rw [OrdMap.find?_insert]
          rw [List.map_cons, List.mem_cons] at hk
          by_cases hkq : k = q.key
          · left
            simp [hkq]
          · rcases hk with hk | hk | hk
            · left
              rw [if_neg hkq]
              exact hk
            · exact absurd hk hkq
            · exact Or.inr hk
  rcases hfold facts.pci OrdMap.empty with ⟨hfrom, hsome⟩
  constructor
  · intro p hp
    rcases hfrom p hp with hp | hp
    · cases hp
    · exact hp
  · intro hk
    exact hsome (Or.inr hk)

/-- Every non-empty parent key is the key of some entry. -/
def KnownParents (facts : Facts) : Prop :=
  forall p, p ∈ facts.pci -> p.parentKey ≠ "" -> p.parentKey ∈ facts.pci.map PciFacts.key

theorem parentsKnown_byKey {facts : Facts} (h : KnownParents facts) :
    ParentsKnown (byKey facts) := by
  intro k p hp
  by_cases hempty : p.parentKey = ""
  · exact Or.inl hempty
  · right
    exact (byKey_find? facts p.parentKey).2
      (h p ((byKey_find? facts k).1 p hp).1 hempty)

theorem gpuNode_known {pci : OrdMap String PciFacts} {g : Json} (h : GpuDoc g)
    {node : Node} (hnode : gpuNode pci g = .ok node) : (pci.find? node.key).isSome := by
  rcases gpuNode_eq h with ⟨id, attrs, _, heq⟩
  rw [heq pci, Fallible.bind_eq_ok] at hnode
  rcases hnode with ⟨p, hp, hnode⟩
  injection hnode with hnode
  rw [← hnode, (findDevice_eq_ok.mp hp).1]
  rfl

theorem nicNode_known {pci : OrdMap String PciFacts} {n nics : Json} {rdma : StringSet}
    (h : NicDoc n) {probe : String}
    (hprobe : nics.get? "rdma_probe" = some (Json.str probe)) {node : Node}
    (hnode : nicNode pci nics rdma n = .ok node) : (pci.find? node.key).isSome := by
  rcases nicNode_eq rdma h hprobe with ⟨id, _, attrs, heq⟩
  rw [heq pci, Fallible.bind_eq_ok] at hnode
  rcases hnode with ⟨p, hp, hnode⟩
  injection hnode with hnode
  rw [← hnode, (findDevice_eq_ok.mp hp).1]
  rfl

/-- On validated documents and known parents, building fails only with the library's errors. -/
theorem build_sane {facts : Facts} (hdocs : Documents facts)
    (hparents : KnownParents facts) : Sane (build facts) := by
  rcases gpuEntries_eq hdocs with ⟨gpus, hgpus, hgpuDocs⟩
  rcases hdocs.rdma with ⟨rs, hrdma, hrdmaDocs⟩
  rcases hdocs.nics with ⟨ns, hnics, hnicDocs⟩
  rcases hdocs.probe with ⟨probe, hprobe⟩
  unfold build
  rw [hgpus, member_of_get? hrdma, member_of_get? hnics]
  apply Sane.bind (Sane.ok gpus)
  intro gpus' hg
  cases hg
  apply Sane.bind
  · apply Sane.mapM
    intro g hg
    rcases gpuNode_eq (hgpuDocs g hg) with ⟨id, attrs, _, heq⟩
    rw [heq]
    exact Sane.bind (findDevice_sane _ _ _) (fun _ _ => Sane.ok _)
  intro gpuNodes hgpuNodes
  apply Sane.bind (Sane.ok _)
  intro rdmaJson hr
  cases hr
  apply Sane.bind
  · apply Sane.mapM
    intro r hr
    rcases hrdmaDocs r hr with ⟨s, hs⟩
    rw [stringMember_of_get? hs]
    exact Sane.ok s
  intro rdmaIds _
  apply Sane.bind (Sane.ok _)
  intro nicsJson hn
  cases hn
  apply Sane.bind
  · apply Sane.mapM
    intro n hn
    rcases nicNode_eq (setOf rdmaIds) (hnicDocs n hn) hprobe with
      ⟨id, _, attrs, heq⟩
    rw [heq]
    exact Sane.bind (findDevice_sane _ _ _) (fun _ _ => Sane.ok _)
  intro nicNodes hnicNodes
  have hleaves : forall leaf,
      leaf ∈ (setOf (gpuNodes.map Node.key ++ nicNodes.map Node.key)).keys ->
        ((byKey facts).find? leaf).isSome := by
    intro leaf hleaf
    rw [OrdMap.mem_keys, setOf_contains, List.mem_append] at hleaf
    rcases hleaf with hleaf | hleaf
    · rcases List.mem_map.mp hleaf with ⟨node, hnode, rfl⟩
      rcases Fallible.forall₂_mem_right (Fallible.mapM_eq_ok.mp hgpuNodes) hnode with
        ⟨g, hg, heq⟩
      exact gpuNode_known (hgpuDocs g hg) heq
    · rcases List.mem_map.mp hleaf with ⟨node, hnode, rfl⟩
      rcases Fallible.forall₂_mem_right (Fallible.mapM_eq_ok.mp hnicNodes) hnode with
        ⟨n, hn, heq⟩
      exact nicNode_known (hnicDocs n hn) hprobe heq
  rcases keepBridges_ok (parentsKnown_byKey hparents) hleaves with ⟨kept, hkept⟩
  dsimp only
  rw [hkept]
  apply Sane.bind (Sane.ok kept)
  intro kept' _
  exact Sane.bind (linkTables_sane hgpuDocs _) (fun _ _ => Sane.ok _)

end Builder
end Topology
end Ostia

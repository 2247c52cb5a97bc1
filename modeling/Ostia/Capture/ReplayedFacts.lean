import Ostia.Capture.HwlocFacts
import Ostia.Capture.Restored

/-!
# Live facts and replayed facts

The tree that is read back is written as the same document, and its facts are those of the live
tree with the map from sysfs.
-/

namespace Ostia
namespace Capture
namespace Hwloc

open BusId Decimal Foundation

/-!
## Facts of a place that is read back
-/

section

variable {pcieMax : PcieMaxMap}

theorem pci?_restored (a : Attr) : a.restored.pci? = a.pci? := by
  cases a <;> rfl

theorem busIdOf_restored (d : Data) : (d.restored pcieMax).busIdOf = d.busIdOf := by
  unfold Data.busIdOf
  rw [show (d.restored pcieMax).attr = d.attr.restored from rfl, pci?_restored]

theorem isPci_restored (d : Data) : (d.restored pcieMax).isPci = d.isPci := by
  unfold Data.isPci
  rw [type_restored]

theorem keyOf_restored {d : Data} (h : d.Zeroed) : (d.restored pcieMax).keyOf = d.keyOf := by
  unfold Data.keyOf
  rw [busIdOf_restored, show (d.restored pcieMax).attr = d.attr.restored from rfl]
  cases d.busIdOf with
  | some id => rfl
  | none =>
      cases hattr : d.attr with
      | bridge b =>
          have hdownstream : (if b.downstreamType = .pci then b.downstream else ⟨0, 0, 0⟩) =
              b.downstream := by
            split_ifs with hpci
            · rfl
            · exact (h b hattr hpci).symm
          unfold Attr.restored
          simp only
          rw [hdownstream]
      | _ => rfl

theorem visible_toText (n : Int) : Xml.visible (toText n) = toText n := by
  have hdigit : forall c, Bytes.isDigit c = true -> Xml.isCharacter c = true := by
    apply Bytes.forall_byte
    decide +kernel
  have hnatural : forall m : Nat, Xml.visible (toText m) = toText m := by
    intro m
    unfold Xml.visible
    rw [List.filter_eq_self]
    intro c hc
    exact hdigit c (isDigit_of_mem hc)
  cases n with
  | ofNat m => exact hnatural m
  | negSucc m =>
      rw [toText_negSucc]
      unfold Xml.visible
      rw [List.filter_cons_of_pos (by decide)]
      exact congrArg _ (hnatural (m + 1))

/-- A name outside the allowlist is only found among the infos from sysfs. -/
theorem infoInt_restored {name : String} (d : Data)
    (h : kInfoAllowlist.contains (ascii name) = false) :
    infoInt (d.restored pcieMax).infos name =
      infoInt ((sysfsInfos pcieMax d).map restoredInfo) name := by
  have hnone : ((allowedInfos d.infos).map restoredInfo).find?
      (fun i => i.name = some (ascii name)) = none := by
    rw [List.find?_eq_none]
    intro i hi hname
    rw [List.mem_map] at hi
    obtain ⟨info, hinfo, rfl⟩ := hi
    unfold allowedInfos at hinfo
    rw [List.mem_filterMap] at hinfo
    obtain ⟨source, _, hsource⟩ := hinfo
    split_ifs at hsource with hallowed
    · rw [Option.some_inj] at hsource
      have hsame : source.name.getD [] = ascii name := by
        have hfirst := Option.some.inj (of_decide_eq_true hname)
        rw [<- hfirst, <- hsource]
      rw [hsame, h] at hallowed
      cases hallowed
  show infoInt ((allowedInfos d.infos ++ sysfsInfos pcieMax d).map restoredInfo) name = _
  unfold infoInt
  rw [List.map_append, List.find?_append, hnone, Option.none_or]

theorem infoInt_self (name : String) (n : Int) (rest : List Info) :
    infoInt (restoredInfo (ascii name, toText n) :: rest) name = n := by
  unfold infoInt restoredInfo
  rw [List.find?_cons_of_pos (by simp)]
  simp only
  rw [visible_toText, atoi_toText]

theorem infoInt_other {name other : String} (value : Bytes) (rest : List Info)
    (h : ascii other ≠ ascii name) :
    infoInt (restoredInfo (ascii other, value) :: rest) name = infoInt rest name := by
  unfold infoInt restoredInfo
  rw [List.find?_cons_of_neg (by simpa using h)]

/-- The numbers that are read back are those of sysfs. -/
theorem linkMaximum_restored (d : Data) :
    linkMaximum none (d.restored pcieMax) = linkMaximum (some pcieMax) d := by
  have hgen := @infoInt_restored pcieMax "OstiaPCIeMaxGen" d (by decide)
  have hwidth := @infoInt_restored pcieMax "OstiaPCIeMaxWidth" d (by decide)
  unfold linkMaximum
  simp only
  rw [hgen, hwidth]
  unfold maxOf sysfsInfos
  cases d.busIdOf with
  | none => rfl
  | some id =>
      cases hmax : pcieMax id with
      | none =>
          simp only [Option.bind_some, hmax]
          rfl
      | some max =>
          have hother : ascii "OstiaPCIeMaxGen" ≠ ascii "OstiaPCIeMaxWidth" := by decide
          simp only [Option.bind_some, hmax, Option.getD_some]
          cases max with
          | mk gen width =>
              rw [PcieMax.mk.injEq]
              split_ifs with hg hw hw
              · exact ⟨infoInt_self _ gen _, (infoInt_other _ _ hother).trans
                  (infoInt_self _ width [])⟩
              · rw [not_not] at hw
                exact ⟨infoInt_self _ gen _, (infoInt_other _ _ hother).trans hw.symm⟩
              · rw [not_not] at hg
                exact ⟨(infoInt_other _ _ hother.symm).trans hg.symm, infoInt_self _ width []⟩
              · rw [not_not] at hg hw
                exact ⟨hg.symm, hw.symm⟩

theorem above_restored {p : Place} (h : p.Clear) :
    (p.restored pcieMax).above = p.above.map (Data.restored pcieMax) := by
  show restoredAbove pcieMax p.above = _
  unfold restoredAbove
  rw [List.filter_eq_self.mpr fun d hd => (h.2 d hd).1]

theorem parentKey_restored {p : Place} (h : p.Clear) :
    (p.restored pcieMax).parentKey = p.parentKey := by
  unfold Place.parentKey
  rw [above_restored h, List.head?_map]
  cases hhead : p.above.head? with
  | none => rfl
  | some parent =>
      have hparent := h.2 parent (List.mem_of_mem_head? (Option.mem_def.mpr hhead))
      simp only [Option.map_some]
      rw [isPci_restored, keyOf_restored hparent.2]

theorem numa_restored {p : Place} (h : p.Clear) : (p.restored pcieMax).numa = p.numa := by
  have hfind : forall ds : List Data, (ds.map (Data.restored pcieMax)).find?
      (fun d => d.cpuset.isSome) = (ds.find? fun d => d.cpuset.isSome).map
        (Data.restored pcieMax) := by
    intro ds
    rw [List.find?_map]
    rfl
  unfold Place.numa
  rw [above_restored h, show (p.restored pcieMax).data = p.data.restored pcieMax from rfl,
    <- List.map_cons, hfind]
  cases (p.data :: p.above).find? fun d => d.cpuset.isSome with
  | none => rfl
  | some ancestor => rfl

theorem pciFacts_restored {p : Place} (h : p.Clear) :
    pciFacts none (p.restored pcieMax) = pciFacts (some pcieMax) p := by
  have hattr : (p.restored pcieMax).data.attr.pci? = p.data.attr.pci? := pci?_restored _
  have htype : (p.restored pcieMax).type = p.type := type_restored pcieMax p.data
  unfold pciFacts
  rw [parentKey_restored h, numa_restored h, hattr, htype,
    show (p.restored pcieMax).data = p.data.restored pcieMax from rfl, linkMaximum_restored,
    busIdOf_restored, keyOf_restored h.1]

end

/-!
## The document of what is read back
-/

section

variable {p : Printer} {topo topo' : Topology} {pcieMax : PcieMaxMap}

theorem maxOf_restored (d : Data) : maxOf pcieMax (d.restored pcieMax) = maxOf pcieMax d := by
  unfold maxOf
  rw [busIdOf_restored]

theorem typeAttributes_restored (a : Attr) : typeAttributes a.restored = typeAttributes a := by
  cases a with
  | group g =>
      unfold typeAttributes Attr.restored
      simp only
      by_cases hmerge : g.dontMerge = 0
      · rw [if_neg (not_not.mpr hmerge), if_neg (not_not.mpr hmerge), if_neg (not_not.mpr rfl)]
      · rw [if_pos hmerge, if_pos (by decide), if_pos hmerge]
  | bridge b =>
      unfold typeAttributes Attr.restored
      simp only
      by_cases hpci : b.downstreamType = .pci
      · rw [if_pos hpci, if_pos hpci]
      · simp only [if_neg hpci]
  | _ => rfl

theorem attributes_restored (hcpuset : topo'.allowedCpuset = topo.allowedCpuset)
    (hnodeset : topo'.allowedNodeset = topo.allowedNodeset) (root : Bool) (d : Data) :
    attributes p topo' pcieMax root (d.restored pcieMax) = attributes p topo pcieMax root d := by
  have hpci : pciAttributes pcieMax (d.restored pcieMax) = pciAttributes pcieMax d := by
    unfold pciAttributes
    rw [busIdOf_restored, maxOf_restored,
      show (d.restored pcieMax).attr.pci? = d.attr.pci? from pci?_restored d.attr]
  unfold attributes
  rw [hcpuset, hnodeset, hpci, type_restored,
    show typeAttributes (d.restored pcieMax).attr = typeAttributes d.attr from
      typeAttributes_restored d.attr]
  rfl

theorem visible_visible (value : Bytes) : Xml.visible (Xml.visible value) = Xml.visible value := by
  unfold Xml.visible
  rw [List.filter_filter]
  simp only [Bool.and_self]

theorem allowed_of_mem {infos : List Info} {info : Bytes × Bytes} (h : info ∈ allowedInfos infos) :
    kInfoAllowlist.contains info.1 = true := by
  unfold allowedInfos at h
  rw [List.mem_filterMap] at h
  obtain ⟨i, _, hi⟩ := h
  split_ifs at hi with hallowed
  rw [Option.some_inj] at hi
  rw [<- hi]
  exact hallowed

theorem not_allowed_of_sysfs {d : Data} {info : Bytes × Bytes}
    (h : info ∈ sysfsInfos pcieMax d) : kInfoAllowlist.contains info.1 = false := by
  have hone : forall (name : String) (n : Int),
      info ∈ (if n ≠ 0 then [(ascii name, toText n)] else []) -> info.1 = ascii name := by
    intro name n hmem
    split_ifs at hmem
    · rw [List.mem_singleton.mp hmem]
    · cases hmem
  unfold sysfsInfos at h
  cases hmax : d.busIdOf.bind pcieMax with
  | none =>
      rw [hmax] at h
      cases h
  | some max =>
      rw [hmax] at h
      rw [List.mem_append] at h
      cases h with
      | inl h => exact ostia_not_allowed (.inl (hone _ _ h))
      | inr h => exact ostia_not_allowed (.inr (hone _ _ h))

theorem ownElements_restored (d : Data) :
    ownElements pcieMax (d.restored pcieMax) = ownElements pcieMax d := by
  have hpages : (d.restored pcieMax).attr.pageTypes = d.attr.pageTypes := by
    unfold Data.restored Attr.restored
    cases d.attr <;> rfl
  have hsysfs : sysfsInfos pcieMax (d.restored pcieMax) = sysfsInfos pcieMax d := by
    unfold sysfsInfos
    rw [busIdOf_restored]
  have hinfos : allowedInfos (d.restored pcieMax).infos =
      (allowedInfos d.infos).map fun info => (info.1, Xml.visible info.2) := by
    show allowedInfos ((allowedInfos d.infos ++ sysfsInfos pcieMax d).map restoredInfo) = _
    have hkept : forall infos : List (Bytes × Bytes),
        (forall info, info ∈ infos -> kInfoAllowlist.contains info.1 = true) ->
          allowedInfos (infos.map restoredInfo) =
            infos.map fun info => (info.1, Xml.visible info.2) := by
      intro infos hinfos
      unfold allowedInfos
      rw [List.filterMap_map, <- List.filterMap_eq_map]
      apply List.filterMap_congr
      intro info hinfo
      exact if_pos (hinfos info hinfo)
    have hdropped : allowedInfos ((sysfsInfos pcieMax d).map restoredInfo) = [] := by
      unfold allowedInfos
      rw [List.filterMap_map, List.filterMap_eq_nil_iff]
      intro info hinfo
      exact if_neg (ne_true_of_eq_false (not_allowed_of_sysfs hinfo))
    have happend : forall xs ys : List Info, allowedInfos (xs ++ ys) =
        allowedInfos xs ++ allowedInfos ys := fun xs ys => List.filterMap_append
    rw [List.map_append, happend, hdropped, List.append_nil]
    exact hkept _ fun info hinfo => allowed_of_mem hinfo
  have helement : forall info : Bytes × Bytes,
      infoElement (info.1, Xml.visible info.2) = infoElement info := by
    intro info
    unfold infoElement
    simp only
    rw [visible_visible]
  unfold ownElements
  rw [hpages, hsysfs, hinfos, List.map_map]
  congr 2
  apply List.map_congr_left
  intro info _
  exact helement info

theorem publishedOf_append (xs ys : List Obj) :
    publishedOf p topo pcieMax (xs ++ ys) =
      publishedOf p topo pcieMax xs ++ publishedOf p topo pcieMax ys := by
  induction xs with
  | nil => rfl
  | cons o rest ih =>
      rw [List.cons_append, publishedOf, publishedOf, ih, List.append_assoc]

/-- A kept object is published as before when its children are. -/
theorem published_kept (hcpuset : topo'.allowedCpuset = topo.allowedCpuset)
    (hnodeset : topo'.allowedNodeset = topo.allowedNodeset) (root : Bool) {data : Data}
    {memory normal io misc : List Obj} (hkeep : disposition data.attr.type = .keep)
    (hchildren : forall os, os ∈ [memory, normal, io, misc] ->
      publishedOf p topo' pcieMax (Obj.restoredOf pcieMax os) = publishedOf p topo pcieMax os) :
    published p topo' pcieMax root (.mk (data.restored pcieMax) (Obj.restoredOf pcieMax memory)
        (Obj.restoredOf pcieMax normal) (Obj.restoredOf pcieMax io)
        (Obj.restoredOf pcieMax misc)) =
      published p topo pcieMax root (.mk data memory normal io misc) := by
  simp only [List.forall_mem_cons] at hchildren
  obtain ⟨hmemory, hnormal, hio, hmisc, _⟩ := hchildren
  rw [published, published, type_restored, hkeep]
  simp only
  rw [attributes_restored hcpuset hnodeset, ownElements_restored, hmemory, hnormal, hio, hmisc]

mutual

theorem publishedOf_restored (hcpuset : topo'.allowedCpuset = topo.allowedCpuset)
    (hnodeset : topo'.allowedNodeset = topo.allowedNodeset) (o : Obj) :
    publishedOf p topo' pcieMax (o.restored pcieMax) = published p topo pcieMax false o := by
  cases o with
  | mk data memory normal io misc =>
      have hmemory := publishedOf_restoredOf hcpuset hnodeset memory
      have hnormal := publishedOf_restoredOf hcpuset hnodeset normal
      have hio := publishedOf_restoredOf hcpuset hnodeset io
      have hmisc := publishedOf_restoredOf hcpuset hnodeset misc
      cases hdisposition : disposition data.attr.type with
      | splice =>
          rw [Obj.restored, published, hdisposition]
          simp only [publishedOf_append, hmemory, hnormal, hio, hmisc]
      | drop =>
          rw [Obj.restored, published, hdisposition]
          rfl
      | keep =>
          have hkept := published_kept (p := p) hcpuset hnodeset false hdisposition (by
            simp only [List.forall_mem_cons]
            exact ⟨hmemory, hnormal, hio, hmisc, List.forall_mem_nil _⟩)
          rw [<- hkept, Obj.restored, hdisposition]
          exact List.append_nil _

theorem publishedOf_restoredOf (hcpuset : topo'.allowedCpuset = topo.allowedCpuset)
    (hnodeset : topo'.allowedNodeset = topo.allowedNodeset) (os : List Obj) :
    publishedOf p topo' pcieMax (Obj.restoredOf pcieMax os) = publishedOf p topo pcieMax os := by
  cases os with
  | nil => rfl
  | cons o rest =>
      rw [Obj.restoredOf, publishedOf_append, publishedOf, publishedOf_restored hcpuset hnodeset,
        publishedOf_restoredOf hcpuset hnodeset rest]

end

end

/-!
## Facts of a topology that is read back
-/

section

variable {pcieMax : PcieMaxMap} {topo topo' : Topology}

theorem exists_restored (hmachine : topo.root.type = .machine) :
    exists topo', topo.restored pcieMax = some topo' ∧
      topo.root.restored pcieMax = [topo'.root] ∧
      forall p : Printer, published p topo' pcieMax true topo'.root =
        published p topo pcieMax true topo.root := by
  unfold Topology.restored
  cases hroot : topo.root with
  | mk data memory normal io misc =>
      rw [hroot] at hmachine
      have hkeep : disposition data.attr.type = .keep := by
        rw [show data.attr.type = .machine from hmachine]
        rfl
      rw [Obj.restored, hkeep]
      refine ⟨_, rfl, rfl, ?_⟩
      intro p
      apply published_kept
      · rfl
      · rfl
      · exact hkeep
      · intro os _
        apply publishedOf_restoredOf
        · rfl
        · rfl

theorem ofType_eq (type : ObjType) (h : isRelevant type = true) :
    topo.ofType type = (topo.places.filter Place.relevant).filter fun p => p.type = type := by
  unfold Topology.ofType
  rw [List.filter_filter]
  apply List.filter_congr
  intro p _
  unfold Place.relevant
  cases heq : decide (p.type = type) with
  | true =>
      rw [of_decide_eq_true heq, h]
      rfl
  | false => rfl

theorem ofType_restored (hhidden : NothingHidden topo.places)
    (hroot : topo.root.restored pcieMax = [topo'.root]) (type : ObjType)
    (h : isRelevant type = true) :
    topo'.ofType type = (topo.ofType type).map (Place.restored pcieMax) := by
  have hplaces := @Obj.places_restored pcieMax topo.root [] hhidden
  rw [hroot, Obj.placesOf, Obj.placesOf, List.append_nil] at hplaces
  rw [ofType_eq type h, ofType_eq type h]
  unfold Topology.places
  rw [show restoredAbove pcieMax [] = [] from rfl] at hplaces
  rw [hplaces, List.filter_map]
  congr 1
  apply List.filter_congr
  intro p _
  show decide ((p.restored pcieMax).type = type) = decide (p.type = type)
  rw [show (p.restored pcieMax).type = p.type from type_restored pcieMax p.data]

theorem pci_restored (hshape : topo.Shaped) (hhidden : NothingHidden topo.places)
    (hroot : topo.root.restored pcieMax = [topo'.root]) (type : ObjType)
    (h : type = .bridge ∨ type = .pciDevice) :
    (topo'.ofType type).map (pciFacts none) = (topo.ofType type).map (pciFacts (some pcieMax)) := by
  have hrelevant : isRelevant type = true := by
    cases h with
    | inl h =>
        rw [h]
        rfl
    | inr h =>
        rw [h]
        rfl
  rw [ofType_restored hhidden hroot type hrelevant, List.map_map]
  apply List.map_congr_left
  intro p hp
  unfold Topology.ofType at hp
  rw [List.mem_filter, decide_eq_true_iff] at hp
  apply pciFacts_restored
  apply Obj.clear topo.root [] hshape.root hhidden
  · intro d hd
    cases hd
  · exact hp.1
  · unfold Data.isPci
    rw [show p.data.attr.type = type from hp.2]
    cases h with
    | inl h =>
        rw [h]
        rfl
    | inr h =>
        rw [h]
        rfl

/-- The facts of the live tree are those of the tree that is read back, which is written as the
same document. -/
theorem extract_restored (hshape : topo.Shaped) (hhidden : NothingHidden topo.places)
    (pcieMax : PcieMaxMap) :
    exists topo', topo.restored pcieMax = some topo' ∧
      (forall p : Printer, published p topo' pcieMax true topo'.root =
        published p topo pcieMax true topo.root) ∧
      extractHwlocFacts topo' none = extractHwlocFacts topo (some pcieMax) := by
  obtain ⟨topo', hrestored, hroot, hpublished⟩ := @exists_restored pcieMax topo hshape.machine
  refine ⟨topo', hrestored, hpublished, ?_⟩
  unfold extractHwlocFacts
  rw [ofType_restored hhidden hroot .package rfl, ofType_restored hhidden hroot .pu rfl,
    ofType_restored hhidden hroot .numaNode rfl,
    pci_restored hshape hhidden hroot .bridge (.inl rfl),
    pci_restored hshape hhidden hroot .pciDevice (.inr rfl), List.length_map, List.length_map,
    List.map_map]
  rfl

end

/-- A GPU under a host bridge with an old number in its infos, and memory behind a cache. -/
def oneGpu : Topology :=
  let zero : Bitmap := ⟨[0], List.pairwise_singleton _ _⟩
  let sets : Option Sets := some ⟨zero, zero⟩
  let pci : PciAttr :=
    { domain := 0, bus := 0x0a, dev := 0, func := 0, vendorId := 0x10de, classId := 0x0302,
      deviceId := 0x2330 }
  let data : Attr -> UInt32 -> Option Sets -> Data := fun attr osIndex sets =>
    ⟨attr, osIndex, sets, sets, 1, []⟩
  let gpu : Obj := .mk
    { data (.pciDevice pci) kUnknownIndex none with
      infos := [⟨some (ascii "OstiaPCIeMaxGen"), some (ascii "1")⟩] } [] [] [] []
  let host : Obj := .mk
    (data (.bridge ⟨none, .pci, ⟨0, 0, 0xff⟩, 0⟩) kUnknownIndex none) [] [] [gpu] []
  let numa : Obj := .mk (data (.numaNode ⟨1024, []⟩) 0 sets) [] [] [] []
  let cache : Obj := .mk (data .memCache 0 sets) [numa] [] [] []
  ⟨.mk (data .machine 0 sets) [cache] [] [host] [], zero, zero⟩

theorem oneGpu_nothingHidden : NothingHidden oneGpu.places := by
  simp [oneGpu, NothingHidden, Topology.places, Obj.places, Obj.placesOf, Place.relevant,
    Place.type, Attr.type, isRelevant, disposition]

theorem extract_restored_oneGpu :
    oneGpu.Shaped ∧ NothingHidden oneGpu.places ∧
      exists topo', oneGpu.restored (fun _ => some ⟨5, 16⟩) = some topo' ∧
        (forall p : Printer, published p topo' (fun _ => some ⟨5, 16⟩) true topo'.root =
          published p oneGpu (fun _ => some ⟨5, 16⟩) true oneGpu.root) ∧
        extractHwlocFacts topo' none = extractHwlocFacts oneGpu (some fun _ => some ⟨5, 16⟩) := by
  have hshape : oneGpu.Shaped := by
    constructor
    · rfl
    · simp [oneGpu, Obj.Shaped, Obj.ShapedOf, OfKind, Obj.type, Obj.data, Attr.type,
        ObjType.kind]
  exact ⟨hshape, oneGpu_nothingHidden, extract_restored hshape oneGpu_nothingHidden _⟩

end Hwloc
end Capture
end Ostia

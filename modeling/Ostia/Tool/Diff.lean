import Ostia.Tool.Command
import Ostia.Topology.Pretty
import Ostia.Topology.Sha256

/-!
# What the tool finds different

Two machines are the same topology for the tool exactly when their models are isomorphic, up to
a collision of the hash.  When they are not, at least one line of their identities is shown.
-/

namespace Ostia
namespace Tool

open Foundation
open Capture (Bytes ascii utf8)
open Ostia.Topology (Json Model Schema)
open Ostia.Topology.Identity (Isomorphic)

/-!
## Texts
-/

theorem utf8_append (s t : String) : utf8 (s ++ t) = utf8 s ++ utf8 t := by
  unfold utf8
  rw [String.toByteArray_append]
  simp

theorem utf8_join (texts : List String) : utf8 (String.join texts) = texts.flatMap utf8 := by
  induction texts with
  | nil => rfl
  | cons text rest ih => rw [String.join_cons, utf8_append, ih, List.flatMap_cons]

/-!
## The identity of a model
-/

section Identities

variable {host : Host}

/-- The document of some edges and nodes. -/
def certificateDoc (edges nodes : List Json) : Json :=
  .obj [("edges", .arr edges), ("nodes", .arr nodes)]

/-- The JSON library reads back the identity that it has printed, and prints each of its elements
on one line. -/
structure ReadsBack (host : Host) (model : Model) : Prop where
  doc : forall doc, identityOf host model = .ok (host.dump doc) ->
    host.parse (utf8 (host.dump doc)) = .ok doc
  oneLine : forall edges nodes,
    identityOf host model = .ok (host.dump (certificateDoc edges nodes)) ->
      forall e, e ∈ edges ++ nodes -> newline ∉ utf8 (host.dump e)

theorem identityOf_eq_ok {model : Model} {text : String} :
    identityOf host model = .ok text <->
      Topology.Identity.canonicalIdentityJson host.dump model = .ok text := by
  unfold identityOf
  cases Topology.Identity.canonicalIdentityJson host.dump model with
  | ok cert =>
      show Except.ok cert = _ <-> _
      rw [Except.ok.injEq, Except.ok.injEq]
  | error e =>
      constructor
      · intro h
        cases h
      · intro h
        cases h

/-- The identity is the least certificate of the graph of the model. -/
theorem exists_isLeast (hdump : Function.Injective host.dump) {model : Model} {text : String}
    (h : identityOf host model = .ok text) :
    exists g, Topology.Identity.strip host.dump model = .ok g ∧
      IsLeast (Topology.Identity.treeCerts host.dump g) text := by
  rw [identityOf_eq_ok] at h
  cases hstrip : Topology.Identity.strip host.dump model with
  | error e =>
      unfold Topology.Identity.canonicalIdentityJson at h
      rw [hstrip] at h
      cases h
  | ok g =>
      have hcap : Topology.Identity.canonicalIdentityJson host.dump model ≠
          .error Topology.Identity.leafCap := by
        rw [h]
        intro hfalse
        cases hfalse
      obtain ⟨cert, hcert, hleast⟩ :=
        Topology.Identity.canonicalIdentityJson_isLeast hdump hstrip hcap
      rw [h] at hcert
      cases hcert
      exact ⟨g, rfl, hleast⟩

/-- Models with equal identities are isomorphic. -/
theorem isomorphic_of_identityOf (hdump : Function.Injective host.dump) {a b : Model}
    {text : String} (ha : identityOf host a = .ok text) (hb : identityOf host b = .ok text) :
    Isomorphic a b := by
  obtain ⟨g, hg, hleast⟩ := exists_isLeast hdump ha
  obtain ⟨g', hg', hleast'⟩ := exists_isLeast hdump hb
  obtain ⟨path, hpath, hcert⟩ := hleast.1
  obtain ⟨path', hpath', hcert'⟩ := hleast'.1
  obtain ⟨f, hf⟩ := Topology.Identity.matches_of_leafCert_eq hdump
    (Topology.Identity.strip_stripped hdump hg) (Topology.Identity.strip_stripped hdump hg')
    hpath hpath' (hcert.trans hcert'.symm)
  exact Topology.Identity.isomorphic_of_matches hdump hg hg' hf

theorem identityOf_eq_of_isomorphic (hdump : Function.Injective host.dump) {a b : Model}
    {text text' : String} (ha : identityOf host a = .ok text)
    (hb : identityOf host b = .ok text') (h : Isomorphic a b) : text = text' := by
  obtain ⟨g, hg, hleast⟩ := exists_isLeast hdump ha
  obtain ⟨g', hg', hleast'⟩ := exists_isLeast hdump hb
  exact Topology.Identity.isLeast_unique_of_isomorphic hdump hg hg' h hleast hleast'

theorem exists_certificateDoc (hdump : Function.Injective host.dump) {model : Model}
    {text : String} (h : identityOf host model = .ok text) :
    exists edges nodes, text = host.dump (certificateDoc edges nodes) := by
  obtain ⟨g, _, hleast⟩ := exists_isLeast hdump h
  obtain ⟨path, _, hcert⟩ := hleast.1
  exact ⟨_, _, hcert.symm⟩

/-- What is read of an identity is the document that was printed. -/
theorem identityDoc_spec (hdump : Function.Injective host.dump) {model : Model}
    (hreads : ReadsBack host model) {doc : Json} (h : identityDoc host model = .ok doc) :
    identityOf host model = .ok (host.dump doc) ∧
      exists edges nodes, doc = certificateDoc edges nodes := by
  obtain ⟨text, htext, hparse⟩ := Fallible.bind_eq_ok.mp h
  obtain ⟨edges, nodes, hdoc⟩ := exists_certificateDoc hdump htext
  rw [hdoc] at htext hparse
  rw [hreads.doc _ htext] at hparse
  cases hparse
  exact ⟨htext, edges, nodes, rfl⟩

end Identities

/-!
## The lines of an identity
-/

section Lines

variable {host : Host}

def elementLines (host : Host) (elements : List Json) : List Bytes :=
  elements.map fun e => ascii "  " ++ utf8 (host.dump e)

def certificateLines (host : Host) (edges nodes : List Json) : List Bytes :=
  [ascii "edges:"] ++ elementLines host edges ++ [ascii "nodes:"] ++ elementLines host nodes

theorem printed_append (lines lines' : List Bytes) :
    printed (lines ++ lines') = printed lines ++ printed lines' := List.flatMap_append

theorem outline_elements (elements : List Json) :
    utf8 (outline host ("" ++ "  ") (.arr elements)) = printed (elementLines host elements) := by
  have hindent : utf8 ("" ++ "  ") = ascii "  " := by decide
  have hend : utf8 "\n" = [newline] := by decide
  have hline : forall e, utf8 ("" ++ "  " ++ host.dump e ++ "\n") =
      ascii "  " ++ utf8 (host.dump e) ++ [newline] := by
    intro e
    rw [utf8_append, utf8_append, hindent, hend]
  rw [outline, utf8_join]
  unfold printed elementLines
  simp only [List.flatMap_map, hline]

theorem outline_certificateDoc (edges nodes : List Json) :
    utf8 (outline host "" (certificateDoc edges nodes)) =
      printed (certificateLines host edges nodes) := by
  have hmember : forall key elements rest,
      utf8 (outlineFields host "" ((key, .arr elements) :: rest)) =
      utf8 ("" ++ key ++ ":\n") ++ printed (elementLines host elements) ++
        utf8 (outlineFields host "" rest) := by
    intro key elements rest
    rw [outlineFields, <- outline_elements, <- utf8_append, <- utf8_append]
    rfl
  have hedges : utf8 ("" ++ "edges" ++ ":\n") = printed [ascii "edges:"] := by decide
  have hnodes : utf8 ("" ++ "nodes" ++ ":\n") = printed [ascii "nodes:"] := by decide
  have hend : utf8 (outlineFields host "" []) = [] := by
    rw [outlineFields]
    rfl
  unfold certificateDoc certificateLines
  rw [outline, hmember, hmember, hend, hedges, hnodes, printed_append, printed_append,
    printed_append]
  simp only [List.append_assoc, List.append_nil]

theorem newline_not_mem_certificateLines {edges nodes : List Json}
    (hlines : forall e, e ∈ edges ++ nodes -> newline ∉ utf8 (host.dump e)) {line : Bytes}
    (h : line ∈ certificateLines host edges nodes) : newline ∉ line := by
  have helement : forall elements, elements ⊆ edges ++ nodes ->
      line ∈ elementLines host elements -> newline ∉ line := by
    intro elements hsub hline
    obtain ⟨e, he, rfl⟩ := List.mem_map.mp hline
    rw [List.mem_append, not_or]
    exact ⟨by decide, hlines e (hsub he)⟩
  unfold certificateLines at h
  rw [List.mem_append, List.mem_append, List.mem_append] at h
  rcases h with ((h | h) | h) | h
  · rw [List.mem_singleton.mp h]
    decide
  · exact helement edges (List.subset_append_left edges nodes) h
  · rw [List.mem_singleton.mp h]
    decide
  · exact helement nodes (List.subset_append_right edges nodes) h

theorem elementLines_injective (hdump : Function.Injective host.dump) :
    Function.Injective (elementLines host) := by
  apply List.map_injective_iff.mpr
  intro e e' h
  exact hdump (Capture.utf8_injective (List.append_cancel_left h))

/-- The lines of an identity determine it. -/
theorem certificateLines_injective (hdump : Function.Injective host.dump)
    {edges nodes edges' nodes' : List Json}
    (h : certificateLines host edges nodes = certificateLines host edges' nodes') :
    edges = edges' ∧ nodes = nodes' := by
  have hindented : forall elements rest, ((elementLines host elements ++
      ascii "nodes:" :: rest).takeWhile fun line => line.head? == some ' '.toUInt8) =
        elementLines host elements := by
    intro elements rest
    rw [List.takeWhile_append_of_pos]
    · rw [List.takeWhile_cons_of_neg (by decide), List.append_nil]
    · intro line hline
      obtain ⟨e, _, rfl⟩ := List.mem_map.mp hline
      rfl
  unfold certificateLines at h
  simp only [List.append_assoc, List.cons_append, List.nil_append] at h
  have htail := (List.cons.inj h).2
  have hedges := congrArg (List.takeWhile fun line => line.head? == some ' '.toUInt8) htail
  rw [hindented, hindented] at hedges
  rw [hedges] at htail
  exact ⟨elementLines_injective hdump hedges,
    elementLines_injective hdump (List.cons.inj (List.append_cancel_left htail)).2⟩

end Lines

/-!
## The verdict on two machines
-/

section Machines

variable {host : Host} {disk : Disk}

/-- Two different identities with the same hash. -/
def Collide (host : Host) (ma mb : Model) : Prop :=
  exists ta tb, identityOf host ma = .ok ta ∧ identityOf host mb = .ok tb ∧ ta ≠ tb ∧
    host.sha256Hex (utf8 ta) = host.sha256Hex (utf8 tb)

theorem topo1_eq_ok {model : Model} {id : String} (h : topo1 host model = .ok id) :
    exists text, identityOf host model = .ok text ∧
      id = "topo1:sha256:" ++ host.sha256Hex (utf8 text) := by
  rw [topo1_eq] at h
  cases htext : identityOf host model with
  | error e =>
      rw [htext] at h
      cases h
  | ok text =>
      rw [htext] at h
      exact ⟨text, rfl, (Except.ok.inj h).symm⟩

/-- What is compared of a machine. -/
theorem sideOf_machine {dir : String} {model : Model} {side : Side}
    (hinput : readInput host disk dir = .ok (.machine model))
    (h : sideOf host disk dir = .ok side) :
    topo1 host model = .ok side.id ∧ exists doc, identityDoc host model = .ok doc ∧
      side.identity = utf8 (outline host "" doc) := by
  unfold sideOf at h
  rw [hinput, Fallible.ok_bind] at h
  obtain ⟨id, hid, h⟩ := Fallible.bind_eq_ok.mp h
  obtain ⟨doc, hdoc, h⟩ := Fallible.bind_eq_ok.mp h
  obtain ⟨text, _, h⟩ := Fallible.bind_eq_ok.mp h
  cases h
  exact ⟨hid, doc, hdoc, rfl⟩

theorem cmdDiff_eq_ok {a b : String} {o : Outcome} (h : cmdDiff host disk a b = .ok o) :
    exists sa sb, sideOf host disk a = .ok sa ∧ sideOf host disk b = .ok sb ∧
      o = diffSides sa sb := by
  obtain ⟨pairA, _, h⟩ := Fallible.bind_eq_ok.mp h
  obtain ⟨pairB, _, h⟩ := Fallible.bind_eq_ok.mp h
  split_ifs at h
  · cases h
  · obtain ⟨sa, hsa, h⟩ := Fallible.bind_eq_ok.mp h
    obtain ⟨sb, hsb, h⟩ := Fallible.bind_eq_ok.mp h
    exact ⟨sa, sb, hsa, hsb, (Except.ok.inj h).symm⟩

theorem diffSides_same {sa sb : Side} (h : sa.id = sb.id) : (diffSides sa sb).exit = kOk := by
  unfold diffSides
  simp only [h, decide_true, if_true]

/-- The differences of the identities are printed when the ids differ. -/
theorem diffSides_different {sa sb : Side} (h : sa.id ≠ sb.id) :
    (diffSides sa sb).exit = kMismatch ∧ exists before after, (diffSides sa sb).output = before ++
      printDiff sa.identity sb.identity (ascii "a identity") (ascii "b identity") ++ after := by
  unfold diffSides
  simp only [h, decide_false, Bool.false_eq_true, if_false, true_and]
  exact ⟨_, _, rfl⟩

/-- Different identities are printed with different lines. -/
theorem identity_lines_ne (hdump : Function.Injective host.dump) {ma mb : Model}
    (hreadsa : ReadsBack host ma) (hreadsb : ReadsBack host mb) {doca docb : Json}
    (ha : identityDoc host ma = .ok doca) (hb : identityDoc host mb = .ok docb)
    (hne : doca ≠ docb) :
    linesOf (utf8 (outline host "" doca)) ≠ linesOf (utf8 (outline host "" docb)) := by
  obtain ⟨hprinta, edges, nodes, hdoca⟩ := identityDoc_spec hdump hreadsa ha
  obtain ⟨hprintb, edges', nodes', hdocb⟩ := identityDoc_spec hdump hreadsb hb
  rw [hdoca] at hprinta hne ⊢
  rw [hdocb] at hprintb hne ⊢
  rw [outline_certificateDoc, outline_certificateDoc,
    linesOf_printed (fun _ => newline_not_mem_certificateLines (hreadsa.oneLine _ _ hprinta)),
    linesOf_printed (fun _ => newline_not_mem_certificateLines (hreadsb.oneLine _ _ hprintb))]
  intro hlines
  obtain ⟨hedges, hnodes⟩ := certificateLines_injective hdump hlines
  rw [hedges, hnodes] at hne
  exact hne rfl

theorem zero_sorted : [0].Pairwise (fun a b : Nat => a < b) := List.pairwise_singleton _ _

/-- A tree with one package, one NUMA node and a NIC on each bus. -/
def nicsTree (buses : List Nat) : Capture.Hwloc.Topology :=
  let zero : Capture.Hwloc.Bitmap := ⟨[0], zero_sorted⟩
  let sets : Option Capture.Hwloc.Sets := some ⟨zero, zero⟩
  let data : UInt64 -> Capture.Hwloc.Attr -> Capture.Hwloc.Data := fun gpIndex attr =>
    ⟨attr, 0, sets, sets, gpIndex, []⟩
  let ioData : UInt64 -> Capture.Hwloc.Attr -> Capture.Hwloc.Data := fun gpIndex attr =>
    ⟨attr, Capture.Hwloc.kUnknownIndex, none, none, gpIndex, []⟩
  let nic : Nat -> Capture.Hwloc.Obj := fun bus =>
    .mk (ioData (6 + bus.toUInt64) (.pciDevice
      { domain := 0, bus := bus.toUInt8, dev := 0, func := 0, vendorId := 0x15b3,
        classId := 0x0200, deviceId := 0x101b })) [] [] [] []
  let bridge : Capture.Hwloc.Obj :=
    .mk (ioData 5 (.bridge ⟨none, .pci, ⟨0, 0, 0xff⟩, 0⟩)) [] [] (buses.map nic) []
  let package : Capture.Hwloc.Obj :=
    .mk (data 3 .package) [] [.mk (data 4 .pu) [] [] [] []] [] []
  let numa : Capture.Hwloc.Obj := .mk (data 2 (.numaNode ⟨0x40000000, []⟩)) [] [] [] []
  ⟨.mk (data 1 .machine) [numa] [package] [bridge] [], zero, zero⟩

def hwlocPrinter : Capture.Hwloc.Printer where
  typeString
    | .machine => "Machine"
    | .package => "Package"
    | .pu => "PU"
    | .numaNode => "NUMANode"
    | .bridge => "Bridge"
    | .pciDevice => "PCIDev"
    | _ => "Misc"
  asprintf set := if set.indexes = [0] then some (ascii "0x00000001") else none

/-- The maximum link of every device. -/
def gen4x16 : Capture.Hwloc.PcieMaxMap := fun _ => some ⟨4, 16⟩

def nicsXml (buses : List Nat) : Bytes :=
  (Capture.Hwloc.emitXml hwlocPrinter (nicsTree buses) gen4x16).1

def nicKey (bus : Nat) : String := "0000:0" ++ toString bus ++ ":00.0"

/-- The document of the NICs. -/
def nicsDoc (buses : List Nat) : Json :=
  .obj [("nics", .arr (buses.map fun bus =>
      .obj [("bus_id", .str (nicKey bus)), ("driver", .str "mlx5_core"),
        ("link_layer", .str "ethernet"), ("max_pcie_gen", .int 4), ("max_pcie_width", .int 16),
        ("numa_node", .int 0), ("port_speed_mbps", .int 100000)])),
    ("rdma", .arr []), ("rdma_probe", .str "ok"), ("schema", .int 1)]

def nicAttrs : OrdMap String Topology.Value :=
  ((((((((OrdMap.empty.insert "driver" (.str "mlx5_core")).insert "link_layer"
    (.str "ethernet")).insert "numa_node" (.int 0)).insert "pci_device" (.int 0x101b)).insert
      "pci_vendor" (.int 0x15b3)).insert "port_speed_mbps" (.int 100000)).insert "rdma"
        (.int 0)).insert "rdma_probe" (.str "ok"))

def nicsModel (buses : List Nat) : Model :=
  ⟨[⟨.package, "package-0", OrdMap.empty⟩, ⟨.numa, "numa-0", OrdMap.empty⟩] ++
      buses.map (fun bus => ⟨.nic, nicKey bus, nicAttrs⟩) ++
      [⟨.pcieBridge, "hostbridge-0000:00", OrdMap.empty⟩],
    buses.flatMap fun bus =>
      [⟨.pcie, "hostbridge-0000:00", nicKey bus,
          (OrdMap.empty.insert "gen" 4).insert "width" 16⟩,
        ⟨.numaLocal, nicKey bus, "numa-0", OrdMap.empty⟩]⟩

def nicsEdges (n : Nat) : List Json :=
  (List.range n).map (fun i =>
    .arr [.int i, .int n, .obj [("kind", .str "numa_local")]]) ++
  (List.range n).map fun i =>
    .arr [.int (n + 2), .int i,
      .obj [("gen", .int 4), ("kind", .str "pcie"), ("width", .int 16)]]

def nicsNodes (n : Nat) : List Json :=
  List.replicate n (.obj [("kind", .str "nic"), ("pci_device", .int 0x101b),
      ("pci_vendor", .int 0x15b3)]) ++
    [.obj [("kind", .str "numa")], .obj [("kind", .str "package")],
      .obj [("kind", .str "pcie_bridge")]]

/-- The document of the identity of a machine with some NICs. -/
def nicsIdentity (n : Nat) : Json := certificateDoc (nicsEdges n) (nicsNodes n)

/-- One NIC, and two. -/
def kBuses : List (List Nat) := [[1], [1, 2]]

/-- The libraries, as far as these machines and some documents need them. -/
def tableHost (docs : List Json) : Host where
  dump := Topology.Compact.dump
  dumpIndented := Topology.Pretty.dump
  parse := fun bytes =>
    match docs.find? fun doc => utf8 (Topology.Compact.dump doc) = bytes with
    | some doc => .ok doc
    | none => .error "syntax error"
  regexSearch := fun _ text => Schema.isBusId text
  sameNumber := Schema.castEqual
  importXml := fun bytes =>
    (kBuses.find? fun buses => nicsXml buses = bytes).bind fun buses =>
      (nicsTree buses).restored gen4x16
  sha256Hex := Topology.Sha256.sha256Hex
  what := fun _ => "unreadable"

/-- The documents of the table are read back. -/
theorem parse_tableHost {docs : List Json} {doc : Json} (h : doc ∈ docs) :
    (tableHost docs).parse (utf8 (Topology.Compact.dump doc)) = .ok doc := by
  unfold tableHost
  dsimp only
  cases hfind : docs.find? fun doc' =>
      utf8 (Topology.Compact.dump doc') = utf8 (Topology.Compact.dump doc) with
  | none =>
      have hnone := List.find?_eq_none.mp hfind doc h
      exact absurd (decide_eq_true rfl) hnone
  | some found =>
      have htrue := List.find?_some hfind
      have hsame := of_decide_eq_true htrue
      rw [Topology.Compact.dump_injective (Capture.utf8_injective hsame)]

/-- Nothing but the documents of the table is read. -/
theorem mem_of_parse_tableHost {docs : List Json} {bytes : Bytes} {doc : Json}
    (h : (tableHost docs).parse bytes = .ok doc) : doc ∈ docs := by
  unfold tableHost at h
  dsimp only at h
  cases hfind : docs.find? fun doc => utf8 (Topology.Compact.dump doc) = bytes with
  | none =>
      rw [hfind] at h
      cases h
  | some found =>
      rw [hfind] at h
      cases h
      exact List.mem_of_find?_eq_some hfind

theorem importXml_nics {docs : List Json} {buses : List Nat} (h : buses ∈ kBuses) :
    (tableHost docs).importXml (nicsXml buses) = (nicsTree buses).restored gen4x16 := by
  have hne : nicsXml [1] ≠ nicsXml [1, 2] := by decide +kernel
  show (kBuses.find? fun found => nicsXml found = nicsXml buses).bind _ = _
  rcases List.mem_pair.mp h with rfl | rfl
  · simp [kBuses]
  · simp [kBuses, hne]

def plainFile (bytes : Bytes) : Except String (Option Slot) := .ok (some ⟨true, some (.ok bytes)⟩)

/-- A directory that holds a machine with NICs and nothing else. -/
structure HoldsNics (disk : Disk) (dir : String) (buses : List Nat) : Prop where
  xml : disk (join dir "hwloc.xml") = plainFile (nicsXml buses)
  nics : disk (join dir "nics.json") = plainFile (utf8 (Topology.Compact.dump (nicsDoc buses)))
  nvml : disk (join dir "nvml.json") = .ok none
  links : disk (join dir "links.json") = .ok none

/-- The model of a machine with NICs. -/
theorem load_nics {docs : List Json} {disk : Disk} {dir : String} {buses : List Nat}
    (hbuses : buses ∈ kBuses) (hdoc : nicsDoc buses ∈ docs) (h : HoldsNics disk dir buses) :
    load (tableHost docs) disk dir = .ok (nicsModel buses) := by
  have hvalid : forall docs buses, buses ∈ kBuses ->
      Schema.validate (tableHost docs).env Schema.nics (nicsDoc buses) = [] := by
    intro docs buses hbuses
    show Schema.validate (tableHost []).env Schema.nics (nicsDoc buses) = []
    rcases List.mem_pair.mp hbuses with rfl | rfl
    · rfl
    · rfl
  have hbuild : forall buses, buses ∈ kBuses -> ((nicsTree buses).restored gen4x16).bind
      (fun topo => (Topology.Builder.build (factsOf topo .null (nicsDoc buses))).toOption) =
        some (nicsModel buses) := by
    intro buses hbuses
    rcases List.mem_pair.mp hbuses with rfl | rfl
    · decide +kernel
    · decide +kernel
  rcases Option.bind_eq_some_iff.mp (hbuild buses hbuses) with ⟨topo, htopo, hmodel⟩
  have hfixture : fixtureSource (tableHost docs) disk dir =
      .ok ⟨factsOf topo .null (nicsDoc buses), .null⟩ := by
    simp only [fixtureSource, importTree, readJson, slotAt, h.xml, h.nics, h.nvml, h.links,
      plainFile, standard, readText, parsedDocument, checkedDocument, parse_tableHost hdoc,
      importXml_nics hbuses, htopo, hvalid docs buses hbuses, Fallible.ok_bind, if_true,
      Bool.false_eq_true, if_false]
    rfl
  unfold load
  rw [hfixture, Fallible.ok_bind, Fallible.eq_ok_of_toOption hmodel]
  rfl

theorem identityOf_nics {docs : List Json} {buses : List Nat} (h : buses ∈ kBuses) :
    identityOf (tableHost docs) (nicsModel buses) =
      .ok (Topology.Compact.dump (nicsIdentity buses.length)) := by
  have hbest : forall buses, buses ∈ kBuses ->
      (Topology.Identity.bestDocument Topology.Compact.dump (nicsModel buses)).map
          (Topology.Compact.layout.text 0) =
        some (Topology.Compact.layout.text 0 (nicsIdentity buses.length)) := by
    intro buses hbuses
    rcases List.mem_pair.mp hbuses with rfl | rfl
    · decide +kernel
    · decide +kernel
  rcases Option.map_eq_some_iff.mp (hbest buses h) with ⟨doc, hdoc, htext⟩
  have hsame : Topology.Compact.dump doc = Topology.Compact.dump (nicsIdentity buses.length) :=
    congrArg String.ofList htext
  rw [identityOf_eq_ok, <- hsame]
  exact Topology.Identity.canonicalIdentityJson_of_bestDocument
    Topology.Compact.dump_injective hdoc

theorem readsBack_nics {docs : List Json} {buses : List Nat} (h : buses ∈ kBuses)
    (hdoc : nicsIdentity buses.length ∈ docs) :
    ReadsBack (tableHost docs) (nicsModel buses) := by
  have hsame : forall doc, identityOf (tableHost docs) (nicsModel buses) =
      .ok ((tableHost docs).dump doc) -> doc = nicsIdentity buses.length := by
    intro doc hidentity
    rw [identityOf_nics h] at hidentity
    exact (Topology.Compact.dump_injective (Except.ok.inj hidentity)).symm
  have hlines : forall buses, buses ∈ kBuses ->
      forall e, e ∈ nicsEdges buses.length ++ nicsNodes buses.length ->
        newline ∉ utf8 (Topology.Compact.dump e) := by decide +kernel
  constructor
  · intro doc hidentity
    rw [hsame doc hidentity]
    exact parse_tableHost hdoc
  · intro edges nodes hidentity
    have hcert := hsame _ hidentity
    unfold nicsIdentity certificateDoc at hcert
    simp only [Json.obj.injEq, List.cons.injEq, Prod.mk.injEq, Json.arr.injEq, true_and,
      and_true] at hcert
    rw [hcert.1, hcert.2]
    exact hlines buses h

theorem sideOf_nics {docs : List Json} {disk : Disk} {dir : String} {buses : List Nat}
    (h : buses ∈ kBuses) (hdoc : nicsIdentity buses.length ∈ docs)
    (hread : readInput (tableHost docs) disk dir = .ok (.machine (nicsModel buses))) :
    exists side, sideOf (tableHost docs) disk dir = .ok side := by
  have hid : (Input.machine (nicsModel buses)).id (tableHost docs) =
      .ok ("topo1:sha256:" ++ (tableHost docs).sha256Hex
        (utf8 (Topology.Compact.dump (nicsIdentity buses.length)))) := by
    show topo1 _ _ = _
    rw [topo1_eq, identityOf_nics h]
    rfl
  have hidentity : (Input.machine (nicsModel buses)).identity (tableHost docs) =
      .ok (nicsIdentity buses.length) := by
    show identityDoc _ _ = _
    unfold identityDoc
    rw [identityOf_nics h, Fallible.ok_bind, parse_tableHost hdoc]
    rfl
  unfold sideOf
  rw [hread, Fallible.ok_bind, hid, Fallible.ok_bind, hidentity]
  exact ⟨_, rfl⟩

theorem cmdDiff_of_sides {host : Host} {disk : Disk} {a b : String} {pair : Bool} {sa sb : Side}
    (ha : isPair disk a = .ok pair) (hb : isPair disk b = .ok pair)
    (hsa : sideOf host disk a = .ok sa) (hsb : sideOf host disk b = .ok sb) :
    cmdDiff host disk a b = .ok (diffSides sa sb) := by
  unfold cmdDiff
  rw [ha, Fallible.ok_bind, hb, Fallible.ok_bind, if_neg (by simp), hsa, Fallible.ok_bind, hsb]
  rfl

def nicsHost : Host := tableHost [nicsDoc [1], nicsDoc [1, 2], nicsIdentity 1, nicsIdentity 2]

/-- Two machines, with one NIC and with two. -/
def nicsDisk : Disk := fun path =>
  if path = "a/hwloc.xml" then plainFile (nicsXml [1])
  else if path = "b/hwloc.xml" then plainFile (nicsXml [1, 2])
  else if path = "a/nics.json" then plainFile (utf8 (Topology.Compact.dump (nicsDoc [1])))
  else if path = "b/nics.json" then plainFile (utf8 (Topology.Compact.dump (nicsDoc [1, 2])))
  else .ok none

theorem readInput_of_load {host : Host} {disk : Disk} {dir : String} {model : Model}
    (hpair : isPair disk dir = .ok false) (hload : load host disk dir = .ok model) :
    readInput host disk dir = .ok (.machine model) := by
  unfold readInput
  rw [hpair, hload]
  rfl

theorem readInput_nics :
    readInput nicsHost nicsDisk "a" = .ok (.machine (nicsModel [1])) ∧
      readInput nicsHost nicsDisk "b" = .ok (.machine (nicsModel [1, 2])) := by
  constructor
  · exact readInput_of_load rfl
      (load_nics List.mem_cons_self (by simp) ⟨rfl, rfl, rfl, rfl⟩)
  · exact readInput_of_load rfl
      (load_nics (List.mem_cons_of_mem _ List.mem_cons_self) (by simp) ⟨rfl, rfl, rfl, rfl⟩)

end Machines

end Tool
end Ostia

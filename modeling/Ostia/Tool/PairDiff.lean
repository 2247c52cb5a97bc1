import Ostia.Tool.Diff
import Ostia.Topology.BuilderSafety

/-!
# What the tool finds different in pairs

Two pairs are the same topology for the tool exactly when they have the same link class and
isomorphic machines, with the ends of every rail at the same machines, up to a collision of the
hash.  The schema of pair.json says what the ends of a rail are.

The identities of a pair are listed under the names of its directories.  A pair whose directories
are named in the other order, with the rails as they were, has the same listing.
-/

namespace Ostia
namespace Tool

open Foundation
open Capture (Bytes ascii utf8)
open Ostia.Topology (Json Model Schema)
open Ostia.Topology.Identity (BothEnds Isomorphic OrderedRails PairDocument Railed linkClassOf
  pairText railsOf swapEnds)

/-- The JSON library iterates over the members of a rail in the order of their keys. -/
def Host.SortsKeys (host : Host) : Prop :=
  forall bytes doc, host.parse bytes = .ok doc -> OrderedRails (railsOf doc)

section Pairs

variable {host : Host} {disk : Disk}

/-!
## Pairs that are read
-/

/-- What is read of a directory that holds a pair. -/
structure PairRead (host : Host) (disk : Disk) (dir : String) (file : PairFile) : Prop where
  isPair : isPair disk dir = .ok true
  parsed : exists bytes, host.parse bytes = .ok file.json
  valid : Schema.validate host.env Schema.pair file.json = []

theorem readPair_spec {dir : String} {file : PairFile} (h : readPair host disk dir = .ok file) :
    (exists bytes, host.parse bytes = .ok file.json) ∧
      Schema.validate host.env Schema.pair file.json = [] := by
  unfold readPair at h
  cases hopened : opened disk (join dir "pair.json") with
  | none =>
      rw [hopened] at h
      cases h
  | some text =>
      rw [hopened] at h
      obtain ⟨bytes, _, h⟩ := Fallible.bind_eq_ok.mp h
      cases hparse : host.parse bytes with
      | error what =>
          rw [hparse] at h
          cases h
      | ok doc =>
          rw [hparse] at h
          change checkedPair host (join dir "pair.json") doc = _ at h
          have hfile : namedNodes (join dir "pair.json") doc = .ok file ∧
              Schema.validate host.env Schema.pair doc = [] := by
            unfold checkedPair at h
            split at h
            · rename_i hvalid
              exact ⟨h, hvalid⟩
            · cases h
          have hjson : file.json = doc := by
            have hnamed := hfile.1
            unfold namedNodes at hnamed
            split at hnamed
            · cases hnamed
              rfl
            · cases hnamed
          rw [hjson]
          exact ⟨⟨bytes, hparse⟩, hfile.2⟩

theorem readInput_pair {dir : String} {file : PairFile} {m0 m1 : Model}
    (h : readInput host disk dir = .ok (.pair file m0 m1)) : PairRead host disk dir file := by
  obtain ⟨pair, hpair, h⟩ := Fallible.bind_eq_ok.mp h
  cases pair with
  | false =>
      obtain ⟨model, _, h⟩ := Fallible.bind_eq_ok.mp h
      cases h
  | true =>
      obtain ⟨file', hfile, h⟩ := Fallible.bind_eq_ok.mp h
      obtain ⟨m0', _, h⟩ := Fallible.bind_eq_ok.mp h
      obtain ⟨m1', _, h⟩ := Fallible.bind_eq_ok.mp h
      cases h
      obtain ⟨hparsed, hvalid⟩ := readPair_spec hfile
      exact ⟨hpair, hparsed, hvalid⟩

/-- In a document that obeys the schema, every rail has its two ends. -/
theorem railed_of_valid {doc : Json} (h : Schema.validate host.env Schema.pair doc = []) :
    Railed (railsOf doc) := by
  have haccepts : Schema.Accepts host.env Schema.pair doc := ⟨"", h⟩
  have hrequired : "rails" ∈ Schema.pair.required := by decide
  obtain ⟨rails, hget, hrails⟩ := haccepts.member rfl hrequired rfl
  intro items hitems rail hrail
  have hsame : railsOf doc = rails := by
    unfold railsOf
    rw [hget, Option.getD_some]
  obtain ⟨xs, hxs, hall⟩ := hrails.items rfl rfl
  rw [hsame, hxs] at hitems
  cases hitems
  have haccepted := hall rail hrail
  have hend : forall key, key ∈ ["node-0", "node-1"] ->
      exists v, rail.get? key = some v ∧ v ≠ .null := by
    intro key hkey
    have hsub : OrdMap.lookup key [("node-0", Schema.railEnd), ("node-1", Schema.railEnd)] =
        some Schema.railEnd := by
      rcases List.mem_cons.mp hkey with heq | hmem
      · rw [heq]
        rfl
      · rw [List.mem_singleton.mp hmem]
        rfl
    obtain ⟨v, hv, hvalid⟩ := haccepted.member rfl hkey hsub
    obtain ⟨fields, hfields⟩ := hvalid.object rfl
    refine ⟨v, hv, ?_⟩
    rw [hfields]
    intro hnull
    cases hnull
  obtain ⟨fields, hfields⟩ := haccepted.object rfl
  refine ⟨?_, hend _ (by decide), hend _ (by decide)⟩
  rw [hfields]
  rfl

/-!
## Ids and identities
-/

/-- The machines are isomorphic in one of the two orders, with every rail between the same ends. -/
def SamePair (fa : PairFile) (a0 a1 : Model) (fb : PairFile) (b0 b1 : Model) : Prop :=
  linkClassOf fa.json = linkClassOf fb.json ∧
    ((Isomorphic a0 b0 ∧ Isomorphic a1 b1 ∧ railsOf fa.json = railsOf fb.json) ∨
      (Isomorphic a0 b1 ∧ Isomorphic a1 b0 ∧ swapEnds (railsOf fa.json) = railsOf fb.json))

/-- The texts whose hashes make the id of a pair. -/
def Hashed (host : Host) (file : PairFile) (m0 m1 : Model) (text : String) : Prop :=
  identityOf host m0 = .ok text ∨ identityOf host m1 = .ok text ∨
    exists id0 id1, topo1 host m0 = .ok id0 ∧ topo1 host m1 = .ok id1 ∧
      text = pairText host.dump id0 id1 file.json

/-- Two different hashed texts with the same hash. -/
def CollideIn (host : Host) (s t : String -> Prop) : Prop :=
  exists x y, s x ∧ t y ∧ x ≠ y ∧ host.sha256Hex (utf8 x) = host.sha256Hex (utf8 y)

theorem pairIdOf_eq_ok {file : PairFile} {m0 m1 : Model} {id : String}
    (h : pairIdOf host file.json m0 m1 = .ok id) :
    exists id0 id1, topo1 host m0 = .ok id0 ∧ topo1 host m1 = .ok id1 ∧
      id = "topo1:sha256:" ++ host.sha256Hex (utf8 (pairText host.dump id0 id1 file.json)) := by
  obtain ⟨id0, hid0, h⟩ := Fallible.bind_eq_ok.mp h
  obtain ⟨id1, hid1, h⟩ := Fallible.bind_eq_ok.mp h
  exact ⟨id0, id1, hid0, hid1, (Except.ok.inj h).symm⟩

/-- Machines with the same id are isomorphic, or their identities collide. -/
theorem isomorphic_or_collide (hdump : Function.Injective host.dump) {ma mb : Model}
    {s t : String -> Prop} (hs : forall text, identityOf host ma = .ok text -> s text)
    (ht : forall text, identityOf host mb = .ok text -> t text) {id : String}
    (ha : topo1 host ma = .ok id) (hb : topo1 host mb = .ok id) :
    Isomorphic ma mb ∨ CollideIn host s t := by
  obtain ⟨ta, hta, hnamea⟩ := topo1_eq_ok ha
  obtain ⟨tb, htb, hnameb⟩ := topo1_eq_ok hb
  rw [hnamea] at hnameb
  by_cases htext : ta = tb
  · left
    exact isomorphic_of_identityOf hdump hta (htext ▸ htb)
  · right
    exact ⟨ta, tb, hs ta hta, ht tb htb, htext, (String.append_right_inj _).mp hnameb⟩

theorem topo1_eq_of_isomorphic (hdump : Function.Injective host.dump) {ma mb : Model}
    (h : Isomorphic ma mb) {ida idb : String} (ha : topo1 host ma = .ok ida)
    (hb : topo1 host mb = .ok idb) : ida = idb := by
  obtain ⟨ta, hta, hnamea⟩ := topo1_eq_ok ha
  obtain ⟨tb, htb, hnameb⟩ := topo1_eq_ok hb
  rw [hnamea, hnameb, identityOf_eq_of_isomorphic hdump hta htb h]

section Ids

variable {fa fb : PairFile} {a0 a1 b0 b1 : Model} {ida idb : String}

/-- The same pair has the same id, whichever machine is named first. -/
theorem pairIdOf_eq_of_samePair (hdump : Function.Injective host.dump)
    (hordera : OrderedRails (railsOf fa.json)) (horderb : OrderedRails (railsOf fb.json))
    (hrailed : Railed (railsOf fa.json)) (ha : pairIdOf host fa.json a0 a1 = .ok ida)
    (hb : pairIdOf host fb.json b0 b1 = .ok idb) (h : SamePair fa a0 a1 fb b0 b1) : ida = idb := by
  obtain ⟨x0, x1, hx0, hx1, hida⟩ := pairIdOf_eq_ok ha
  obtain ⟨y0, y1, hy0, hy1, hidb⟩ := pairIdOf_eq_ok hb
  let p : PairDocument := ⟨fa.json, hordera⟩
  let q : PairDocument := ⟨fb.json, horderb⟩
  rw [hida, hidb]
  rcases h.2 with ⟨h0, h1, hrails⟩ | ⟨h0, h1, hrails⟩
  · have hzero := topo1_eq_of_isomorphic hdump h0 hx0 hy0
    have hone := topo1_eq_of_isomorphic hdump h1 hx1 hy1
    unfold pairText
    rw [hzero, hone, h.1, hrails]
  · have hzero := topo1_eq_of_isomorphic hdump h0 hx0 hy1
    have hone := topo1_eq_of_isomorphic hdump h1 hx1 hy0
    have hexchanged : Topology.Identity.Exchanged p.rails q.rails := by
      show Topology.Identity.Exchanged (railsOf fa.json) (railsOf fb.json)
      rw [<- hrails]
      exact Topology.Identity.exchanged_swapEnds hordera
    have htext : pairText host.dump x0 x1 p.json = pairText host.dump x1 x0 q.json :=
      Topology.Identity.pairText_swap x0 x1 hrailed h.1 hexchanged
    rw [hzero, hone] at htext
    rw [hzero, hone, show pairText host.dump y1 y0 fa.json = _ from htext]

/-- Pairs with one id are the same, or two of their hashed texts collide. -/
theorem samePair_or_collide (hdump : Function.Injective host.dump)
    (hordera : OrderedRails (railsOf fa.json)) (horderb : OrderedRails (railsOf fb.json))
    (hrailed : Railed (railsOf fa.json)) (ha : pairIdOf host fa.json a0 a1 = .ok ida)
    (hb : pairIdOf host fb.json b0 b1 = .ok ida) :
    SamePair fa a0 a1 fb b0 b1 ∨ CollideIn host (Hashed host fa a0 a1) (Hashed host fb b0 b1) := by
  obtain ⟨x0, x1, hx0, hx1, hida⟩ := pairIdOf_eq_ok ha
  obtain ⟨y0, y1, hy0, hy1, hidb⟩ := pairIdOf_eq_ok hb
  let p : PairDocument := ⟨fa.json, hordera⟩
  let q : PairDocument := ⟨fb.json, horderb⟩
  by_cases htext : pairText host.dump x0 x1 p.json = pairText host.dump y0 y1 q.json
  · have hmachines : forall {ma mb : Model} {id : String},
        (forall text, identityOf host ma = .ok text -> Hashed host fa a0 a1 text) ->
        (forall text, identityOf host mb = .ok text -> Hashed host fb b0 b1 text) ->
        topo1 host ma = .ok id -> topo1 host mb = .ok id -> Isomorphic ma mb ∨
          CollideIn host (Hashed host fa a0 a1) (Hashed host fb b0 b1) :=
      fun hs ht hma hmb => isomorphic_or_collide hdump hs ht hma hmb
    have hfirst : forall {file m0 m1 text}, identityOf host m0 = .ok text ->
        Hashed host file m0 m1 text := Or.inl
    have hsecond : forall {file m0 m1 text}, identityOf host m1 = .ok text ->
        Hashed host file m0 m1 text := fun h => Or.inr (Or.inl h)
    obtain ⟨hclass, hrails⟩ := Topology.Identity.of_pairText_eq hdump htext
    rcases hrails with ⟨hzero, hone, hkept⟩ | ⟨hzero, hone, hexchanged⟩
    · rw [hzero] at hx0
      rw [hone] at hx1
      rcases hmachines (fun _ => hfirst) (fun _ => hfirst) hx0 hy0 with h0 | hcollide
      · rcases hmachines (fun _ => hsecond) (fun _ => hsecond) hx1 hy1 with h1 | hcollide
        · exact Or.inl ⟨hclass, Or.inl ⟨h0, h1,
            Topology.Identity.eq_of_kept hordera horderb hrailed hkept⟩⟩
        · exact Or.inr hcollide
      · exact Or.inr hcollide
    · rw [hzero] at hx0
      rw [hone] at hx1
      rcases hmachines (fun _ => hfirst) (fun _ => hsecond) hx0 hy1 with h0 | hcollide
      · rcases hmachines (fun _ => hsecond) (fun _ => hfirst) hx1 hy0 with h1 | hcollide
        · exact Or.inl ⟨hclass, Or.inr ⟨h0, h1,
            Topology.Identity.swapEnds_eq hordera horderb hrailed hexchanged⟩⟩
        · exact Or.inr hcollide
      · exact Or.inr hcollide
  · right
    refine ⟨_, _, Or.inr (Or.inr ⟨x0, x1, hx0, hx1, rfl⟩),
      Or.inr (Or.inr ⟨y0, y1, hy0, hy1, rfl⟩), htext, ?_⟩
    rw [hida] at hidb
    exact (String.append_right_inj _).mp hidb

end Ids

/-- What is compared of a pair. -/
theorem sideOf_pair {dir : String} {file : PairFile} {m0 m1 : Model} {side : Side}
    (hinput : readInput host disk dir = .ok (.pair file m0 m1))
    (h : sideOf host disk dir = .ok side) :
    pairIdOf host file.json m0 m1 = .ok side.id ∧
      (exists doc0 doc1, identityDoc host m0 = .ok doc0 ∧ identityDoc host m1 = .ok doc1 ∧
        side.identity = utf8 (outline host "" (pairIdentity file doc0 doc1))) ∧
      side.keys = Topology.Builder.setOf (keysOf (file.name0 ++ "/") m0 ++
        keysOf (file.name1 ++ "/") m1) ∧
      side.model = utf8 (host.dumpIndented (pairJson m0 m1 side.id) ++ "\n") := by
  unfold sideOf at h
  rw [hinput, Fallible.ok_bind] at h
  obtain ⟨id, hid, h⟩ := Fallible.bind_eq_ok.mp h
  obtain ⟨doc, hdoc, h⟩ := Fallible.bind_eq_ok.mp h
  obtain ⟨text, htext, h⟩ := Fallible.bind_eq_ok.mp h
  obtain ⟨doc0, hdoc0, hdoc⟩ := Fallible.bind_eq_ok.mp hdoc
  obtain ⟨doc1, hdoc1, hdoc⟩ := Fallible.bind_eq_ok.mp hdoc
  obtain ⟨id', hid', htext⟩ := Fallible.bind_eq_ok.mp htext
  have hsame : pairIdOf host file.json m0 m1 = .ok id := hid
  rw [hsame] at hid'
  cases hid'
  cases hdoc
  cases htext
  cases h
  exact ⟨hid, ⟨doc0, doc1, hdoc0, hdoc1, rfl⟩, rfl, rfl⟩

/-- The tool returns 0 exactly for the same pair, up to a collision. -/
theorem cmdDiff_pairs (hdump : Function.Injective host.dump) (hsorts : host.SortsKeys)
    {a b : String} {fa fb : PairFile} {a0 a1 b0 b1 : Model}
    (ha : readInput host disk a = .ok (.pair fa a0 a1))
    (hb : readInput host disk b = .ok (.pair fb b0 b1)) {o : Outcome}
    (h : cmdDiff host disk a b = .ok o) :
    o.exit = kOk ∧ (SamePair fa a0 a1 fb b0 b1 ∨
        CollideIn host (Hashed host fa a0 a1) (Hashed host fb b0 b1)) ∨
      o.exit = kMismatch ∧ ¬ SamePair fa a0 a1 fb b0 b1 := by
  obtain ⟨sa, sb, hsa, hsb, rfl⟩ := cmdDiff_eq_ok h
  obtain ⟨hida, _, _, _⟩ := sideOf_pair ha hsa
  obtain ⟨hidb, _, _, _⟩ := sideOf_pair hb hsb
  obtain ⟨bytesa, hparsea⟩ := (readInput_pair ha).parsed
  obtain ⟨bytesb, hparseb⟩ := (readInput_pair hb).parsed
  have hordera := hsorts _ _ hparsea
  have horderb := hsorts _ _ hparseb
  have hrailed := railed_of_valid (readInput_pair ha).valid
  by_cases hsame : sa.id = sb.id
  · rw [<- hsame] at hidb
    exact Or.inl ⟨diffSides_same hsame,
      samePair_or_collide hdump hordera horderb hrailed hida hidb⟩
  · exact Or.inr ⟨(diffSides_different hsame).1,
      fun hpair => hsame (pairIdOf_eq_of_samePair hdump hordera horderb hrailed hida hidb hpair)⟩

/-- A pair of machines over TCP, with one rail between two NICs. -/
def tcpPair (name0 name1 : String) : Json :=
  .obj [("link_class", .str "tcp"), ("measured", .arr []),
    ("nodes", .arr [.str name0, .str name1]),
    ("rails", .arr [.obj [("node-0", .obj [("nic_index", .int 0)]),
      ("node-1", .obj [("nic_index", .int 0)])]]), ("schema", .int 1)]

def pairDocs : List Json :=
  [nicsDoc [1], nicsDoc [1, 2], nicsIdentity 1, nicsIdentity 2, tcpPair "n0" "n1",
    tcpPair "n1" "n0"]

/-- Two pairs of the same two machines, whose files name them in opposite orders. -/
def pairsDisk : Disk := fun path =>
  if path = "p/pair.json" then plainFile (utf8 (Topology.Compact.dump (tcpPair "n0" "n1")))
  else if path = "q/pair.json" then plainFile (utf8 (Topology.Compact.dump (tcpPair "n1" "n0")))
  else if path = "p/n0/hwloc.xml" ∨ path = "q/n0/hwloc.xml" then plainFile (nicsXml [1])
  else if path = "p/n1/hwloc.xml" ∨ path = "q/n1/hwloc.xml" then plainFile (nicsXml [1, 2])
  else if path = "p/n0/nics.json" ∨ path = "q/n0/nics.json" then
    plainFile (utf8 (Topology.Compact.dump (nicsDoc [1])))
  else if path = "p/n1/nics.json" ∨ path = "q/n1/nics.json" then
    plainFile (utf8 (Topology.Compact.dump (nicsDoc [1, 2])))
  else .ok none

theorem readPair_tcp :
    readPair (tableHost pairDocs) pairsDisk "p" = .ok ⟨tcpPair "n0" "n1", "n0", "n1"⟩ ∧
      readPair (tableHost pairDocs) pairsDisk "q" = .ok ⟨tcpPair "n1" "n0", "n1", "n0"⟩ := by
  have hread : forall dir name0 name1, opened pairsDisk (join dir "pair.json") =
        some (.ok (utf8 (Topology.Compact.dump (tcpPair name0 name1)))) ->
      tcpPair name0 name1 ∈ pairDocs ->
      Schema.validate (tableHost pairDocs).env Schema.pair (tcpPair name0 name1) = [] ->
      readPair (tableHost pairDocs) pairsDisk dir =
        .ok ⟨tcpPair name0 name1, name0, name1⟩ := by
    intro dir name0 name1 hopened hmem hvalid
    unfold readPair checkedPair
    simp only [hopened, standard, Fallible.ok_bind, parse_tableHost hmem, hvalid]
    rfl
  exact ⟨hread "p" "n0" "n1" rfl (by simp [pairDocs]) rfl,
    hread "q" "n1" "n0" rfl (by simp [pairDocs]) rfl⟩

/-- Both machines of both pairs. -/
theorem load_pairs {dir : String} {buses : List Nat} (hbuses : buses ∈ kBuses)
    (h : HoldsNics pairsDisk dir buses) :
    load (tableHost pairDocs) pairsDisk dir = .ok (nicsModel buses) := by
  have hdocs : forall buses, buses ∈ kBuses -> nicsDoc buses ∈ pairDocs := by
    intro buses hbuses
    rcases List.mem_pair.mp hbuses with rfl | rfl
    · simp [pairDocs]
    · simp [pairDocs]
  exact load_nics hbuses (hdocs buses hbuses) h

theorem readInput_pairs :
    readInput (tableHost pairDocs) pairsDisk "p" =
        .ok (.pair ⟨tcpPair "n0" "n1", "n0", "n1"⟩ (nicsModel [1]) (nicsModel [1, 2])) ∧
      readInput (tableHost pairDocs) pairsDisk "q" =
        .ok (.pair ⟨tcpPair "n1" "n0", "n1", "n0"⟩ (nicsModel [1, 2]) (nicsModel [1])) := by
  have hone : [1] ∈ kBuses := List.mem_cons_self
  have htwo : [1, 2] ∈ kBuses := List.mem_cons_of_mem _ List.mem_cons_self
  have hread : forall dir file m0 m1, isPair pairsDisk dir = .ok true ->
      readPair (tableHost pairDocs) pairsDisk dir = .ok file ->
      load (tableHost pairDocs) pairsDisk (join dir file.name0) = .ok m0 ->
      load (tableHost pairDocs) pairsDisk (join dir file.name1) = .ok m1 ->
      readInput (tableHost pairDocs) pairsDisk dir = .ok (.pair file m0 m1) := by
    intro dir file m0 m1 hpair hfile h0 h1
    unfold readInput
    rw [hpair, Fallible.ok_bind, if_pos rfl, hfile, Fallible.ok_bind, h0, Fallible.ok_bind, h1]
    rfl
  constructor
  · exact hread "p" _ _ _ rfl readPair_tcp.1 (load_pairs hone ⟨rfl, rfl, rfl, rfl⟩)
      (load_pairs htwo ⟨rfl, rfl, rfl, rfl⟩)
  · exact hread "q" _ _ _ rfl readPair_tcp.2 (load_pairs htwo ⟨rfl, rfl, rfl, rfl⟩)
      (load_pairs hone ⟨rfl, rfl, rfl, rfl⟩)

theorem sortsKeys_pairDocs : (tableHost pairDocs).SortsKeys := by
  intro bytes doc h
  have hmem : doc ∈ pairDocs := mem_of_parse_tableHost h
  have hordered : forall doc, doc ∈ pairDocs -> railsOf doc = .null ∨ railsOf doc =
      .arr [.obj [("node-0", .obj [("nic_index", .int 0)]),
        ("node-1", .obj [("nic_index", .int 0)])]] := by
    intro doc hdoc
    simp only [pairDocs, List.mem_cons, List.not_mem_nil, or_false] at hdoc
    rcases hdoc with rfl | rfl | rfl | rfl | rfl | rfl
    · exact Or.inl rfl
    · exact Or.inl rfl
    · exact Or.inl rfl
    · exact Or.inl rfl
    · exact Or.inr rfl
    · exact Or.inr rfl
  intro items hitems rail hrail fields hfields
  rcases hordered doc hmem with hnull | hrails
  · rw [hnull] at hitems
    cases hitems
  · rw [hrails] at hitems
    cases hitems
    rw [List.mem_singleton] at hrail
    rw [hrail] at hfields
    cases hfields
    have hlt : "node-0".toList < "node-1".toList := by decide
    exact List.pairwise_pair.mpr (String.lt_iff_toList_lt.mpr hlt)

theorem cmdDiff_eq_ok_pairs :
    exists o, cmdDiff (tableHost pairDocs) pairsDisk "p" "q" = .ok o := by
  have hside : forall dir file b0 b1, b0 ∈ kBuses -> b1 ∈ kBuses ->
      readInput (tableHost pairDocs) pairsDisk dir =
        .ok (.pair file (nicsModel b0) (nicsModel b1)) ->
      exists side, sideOf (tableHost pairDocs) pairsDisk dir = .ok side := by
    intro dir file b0 b1 h0 h1 hread
    have hids : forall buses, buses ∈ kBuses ->
        exists id, topo1 (tableHost pairDocs) (nicsModel buses) = .ok id := by
      intro buses h
      rw [topo1_eq, identityOf_nics h]
      exact ⟨_, rfl⟩
    have hdocs : forall buses, buses ∈ kBuses ->
        exists doc, identityDoc (tableHost pairDocs) (nicsModel buses) = .ok doc := by
      intro buses h
      have hmem : nicsIdentity buses.length ∈ pairDocs := by
        rcases List.mem_pair.mp h with rfl | rfl
        · simp [pairDocs]
        · simp [pairDocs]
      unfold identityDoc
      rw [identityOf_nics h, Fallible.ok_bind, parse_tableHost hmem]
      exact ⟨_, rfl⟩
    rcases hids b0 h0 with ⟨id0, hid0⟩
    rcases hids b1 h1 with ⟨id1, hid1⟩
    rcases hdocs b0 h0 with ⟨doc0, hdoc0⟩
    rcases hdocs b1 h1 with ⟨doc1, hdoc1⟩
    unfold sideOf
    rw [hread, Fallible.ok_bind]
    simp only [Input.id, Input.identity, Input.text, pairIdOf, hid0, hid1, hdoc0, hdoc1,
      Fallible.ok_bind]
    exact ⟨_, rfl⟩
  have hone : [1] ∈ kBuses := List.mem_cons_self
  have htwo : [1, 2] ∈ kBuses := List.mem_cons_of_mem _ List.mem_cons_self
  rcases hside "p" _ _ _ hone htwo readInput_pairs.1 with ⟨sa, hsa⟩
  rcases hside "q" _ _ _ htwo hone readInput_pairs.2 with ⟨sb, hsb⟩
  have hp : isPair pairsDisk "p" = .ok true := rfl
  have hq : isPair pairsDisk "q" = .ok true := rfl
  exact ⟨_, cmdDiff_of_sides hp hq hsa hsb⟩

theorem cmdDiff_pairs_tcp : exists o, cmdDiff (tableHost pairDocs) pairsDisk "p" "q" = .ok o ∧
    (o.exit = kOk ∧ (SamePair ⟨tcpPair "n0" "n1", "n0", "n1"⟩ (nicsModel [1]) (nicsModel [1, 2])
          ⟨tcpPair "n1" "n0", "n1", "n0"⟩ (nicsModel [1, 2]) (nicsModel [1]) ∨
        CollideIn (tableHost pairDocs)
          (Hashed (tableHost pairDocs) ⟨tcpPair "n0" "n1", "n0", "n1"⟩ (nicsModel [1])
            (nicsModel [1, 2]))
          (Hashed (tableHost pairDocs) ⟨tcpPair "n1" "n0", "n1", "n0"⟩ (nicsModel [1, 2])
            (nicsModel [1]))) ∨
      o.exit = kMismatch ∧ ¬ SamePair ⟨tcpPair "n0" "n1", "n0", "n1"⟩ (nicsModel [1])
        (nicsModel [1, 2]) ⟨tcpPair "n1" "n0", "n1", "n0"⟩ (nicsModel [1, 2]) (nicsModel [1])) := by
  obtain ⟨o, ho⟩ := cmdDiff_eq_ok_pairs
  exact ⟨o, ho, cmdDiff_pairs Topology.Compact.dump_injective sortsKeys_pairDocs
    readInput_pairs.1 readInput_pairs.2 ho⟩

/-!
## The other order of the directories
-/

theorem ended_newline (text : Bytes) : ended (text ++ [newline]) = text ++ [newline] := by
  unfold ended
  rw [if_pos (Or.inr List.getLast?_concat)]

theorem setOf_append_comm (xs ys : List String) :
    Topology.Builder.setOf (xs ++ ys) = Topology.Builder.setOf (ys ++ xs) := by
  apply OrdMap.ext_contains
  intro k
  rw [Topology.Builder.setOf_contains, Topology.Builder.setOf_contains, List.mem_append,
    List.mem_append, or_comm]

/--
Two pairs whose files name the same two directories in opposite orders, and agree in link class
and rails, are listed alike.  When the tool finds them different, the differences of the
identities are none, and only those of the models show a line.
-/
theorem cmdDiff_swapped (hindented : Function.Injective host.dumpIndented) {a b : String}
    {fa fb : PairFile} {m0 m1 : Model} (ha : readInput host disk a = .ok (.pair fa m0 m1))
    (hb : readInput host disk b = .ok (.pair fb m1 m0)) (hname0 : fb.name0 = fa.name1)
    (hname1 : fb.name1 = fa.name0) (hne : fa.name0 ≠ fa.name1)
    (hclass : linkClassOf fa.json = linkClassOf fb.json)
    (hrails : railsOf fa.json = railsOf fb.json) {o : Outcome}
    (h : cmdDiff host disk a b = .ok o) :
    exists sa sb, sideOf host disk a = .ok sa ∧ sideOf host disk b = .ok sb ∧
      differing (linesOf sa.identity) (linesOf sb.identity) = [] ∧
      (o.exit ≠ kOk -> 0 < consumed (linesOf sa.model) (linesOf sb.model) ∧
        exists before, o.output = before ++
          printDiff sa.model sb.model (ascii "a model") (ascii "b model")) := by
  obtain ⟨sa, sb, hsa, hsb, rfl⟩ := cmdDiff_eq_ok h
  obtain ⟨_, ⟨doc0, doc1, hdoc0, hdoc1, hidentitya⟩, hkeysa, hmodela⟩ := sideOf_pair ha hsa
  obtain ⟨_, ⟨doc0', doc1', hdoc0', hdoc1', hidentityb⟩, hkeysb, hmodelb⟩ := sideOf_pair hb hsb
  rw [hdoc1] at hdoc0'
  rw [hdoc0] at hdoc1'
  cases hdoc0'
  cases hdoc1'
  have hdocs : pairIdentity fa doc0 doc1 = pairIdentity fb doc1 doc0 := by
    unfold pairIdentity
    rw [hname0, hname1, hclass, hrails]
    exact congrArg Json.ofMap (OrdMap.insert_comm _ _ _ hne)
  refine ⟨sa, sb, hsa, hsb, ?_, ?_⟩
  · rw [hidentitya, hidentityb, hdocs]
    exact differing_eq_nil.mpr rfl
  · intro hexit
    have hid : sa.id ≠ sb.id := mt diffSides_same hexit
    have hkeys : sa.keys = sb.keys := by
      rw [hkeysa, hkeysb, hname0, hname1]
      exact setOf_append_comm _ _
    have hmodel : sa.model ≠ sb.model := by
      intro hsame
      rw [hmodela, hmodelb, utf8_append, utf8_append] at hsame
      have hdoc := hindented (Capture.utf8_injective (List.append_cancel_right hsame))
      unfold pairJson at hdoc
      simp only [Json.obj.injEq, List.cons.injEq, Prod.mk.injEq, Json.str.injEq, true_and,
        and_true] at hdoc
      exact hid hdoc.2
    constructor
    · apply consumed_pos
      have hnewline : utf8 "\n" = [newline] := by decide
      rw [Ne, linesOf_eq_iff, hmodela, hmodelb, utf8_append, utf8_append, hnewline, ended_newline,
        ended_newline, <- hnewline, <- utf8_append, <- utf8_append, <- hmodela, <- hmodelb]
      exact hmodel
    · unfold diffSides
      rw [if_pos ⟨congrArg OrdMap.entries hkeys, hmodel⟩]
      exact ⟨_, (List.append_assoc _ _ _).symm⟩

theorem cmdDiff_swapped_tcp : exists o, cmdDiff (tableHost pairDocs) pairsDisk "p" "q" = .ok o ∧
    exists sa sb, sideOf (tableHost pairDocs) pairsDisk "p" = .ok sa ∧
      sideOf (tableHost pairDocs) pairsDisk "q" = .ok sb ∧
      differing (linesOf sa.identity) (linesOf sb.identity) = [] ∧
      (o.exit ≠ kOk -> 0 < consumed (linesOf sa.model) (linesOf sb.model) ∧
        exists before, o.output = before ++
          printDiff sa.model sb.model (ascii "a model") (ascii "b model")) := by
  obtain ⟨o, ho⟩ := cmdDiff_eq_ok_pairs
  exact ⟨o, ho, cmdDiff_swapped Topology.Pretty.dump_injective readInput_pairs.1
    readInput_pairs.2 rfl rfl (by decide) rfl rfl ho⟩

end Pairs

end Tool
end Ostia

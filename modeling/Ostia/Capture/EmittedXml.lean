import Ostia.Capture.EmitXml

/-!
# Reading hwloc.xml back

What is written is a document, and what is read of it is the allowed part of the tree: nothing of
an object that is dropped, no attribute and no info but those of the lists, and the link facts
of sysfs.
-/

namespace Ostia
namespace Capture
namespace Hwloc

open Foundation

/-!
## The allowed part of a tree
-/

/-- The infos of the allowlist, in the order of the source. -/
def allowedInfos (infos : List Info) : List (Bytes × Bytes) :=
  infos.filterMap fun i =>
    if kInfoAllowlist.contains (i.name.getD []) then some (i.name.getD [], i.value.getD [])
    else none

/-- The numbers that sysfs has for an object with a bus ID. -/
def sysfsInfos (pcieMax : PcieMaxMap) (d : Data) : List (Bytes × Bytes) :=
  match d.busIdOf.bind pcieMax with
  | none => []
  | some max =>
      (if max.gen ≠ 0 then [(ascii "OstiaPCIeMaxGen", toText max.gen)] else []) ++
        if max.width ≠ 0 then [(ascii "OstiaPCIeMaxWidth", toText max.width)] else []

def infoElement (info : Bytes × Bytes) : Xml.Element :=
  .mk (ascii "info") [(ascii "name", info.1), (ascii "value", Xml.visible info.2)] []

def pageElement (page : PageType) : Xml.Element :=
  .mk (ascii "page_type") (Xml.shown [(ascii "size", toText page.size.toNat),
    (ascii "count", toText page.count.toNat)]) []

def ownElements (pcieMax : PcieMaxMap) (d : Data) : List Xml.Element :=
  d.attr.pageTypes.map pageElement ++ (allowedInfos d.infos).map infoElement ++
    (sysfsInfos pcieMax d).map infoElement

section

variable (p : Printer) (topo : Topology) (pcieMax : PcieMaxMap)

mutual

/-- An object that is kept, the children of a spliced one, or nothing. -/
def published (root : Bool) : Obj -> List Xml.Element
  | .mk data memory normal io misc =>
      match disposition data.attr.type with
      | .splice =>
          publishedOf memory ++ publishedOf normal ++ publishedOf io ++ publishedOf misc
      | .drop => []
      | .keep =>
          [.mk (ascii "object") (Xml.shown (attributes p topo pcieMax root data))
            (ownElements pcieMax data ++ (publishedOf memory ++ publishedOf normal ++
              publishedOf io ++ publishedOf misc))]

def publishedOf : List Obj -> List Xml.Element
  | [] => []
  | o :: rest => published false o ++ publishedOf rest

end

end

/-- Read a document with the prologue of hwloc's files. -/
def decode (t : Bytes) : Option Xml.Element :=
  if prologue.isPrefixOf t then Xml.read (t.drop prologue.length) else none

/-!
## Names of attributes
-/

/-- All attributes that an object can have, in the order in which they are written. -/
def kAttributes : List Bytes :=
  ["type", "os_index", "cpuset", "complete_cpuset", "allowed_cpuset", "nodeset",
    "complete_nodeset", "allowed_nodeset", "gp_index", "cache_size", "bridge_type", "depth",
    "cache_linesize", "cache_associativity", "cache_type", "kind", "subkind", "dont_merge",
    "local_memory", "bridge_pci", "pci_busid", "pci_type", "pci_link_speed"].map ascii

/-- The names of some attributes are among these, in this order. -/
def Within (attrs : Attrs) (names : List String) : Prop :=
  (attrs.map Prod.fst).Sublist (names.map ascii)

theorem Within.append {xs ys : Attrs} {ns ms : List String} (hxs : Within xs ns)
    (hys : Within ys ms) : Within (xs ++ ys) (ns ++ ms) := by
  unfold Within
  rw [List.map_append, List.map_append]
  exact List.Sublist.append hxs hys

/-- Attributes that are written on a condition. -/
theorem Within.ite {attrs : Attrs} {names : List String} {c : Prop} [Decidable c]
    (h : Within attrs names) : Within (if c then attrs else []) names := by
  split_ifs
  · exact h
  · exact List.nil_sublist _

theorem within_self {attrs : Attrs} {names : List String}
    (h : attrs.map Prod.fst = names.map ascii) : Within attrs names := by
  unfold Within
  rw [h]

theorem within_setAttributes (p : Printer) (name : String) (sets : Option Sets) (root : Bool)
    (allowed : Bitmap) :
    Within (setAttributes p name sets root allowed)
      [name, "complete_" ++ name, "allowed_" ++ name] := by
  have hjoin : forall a b : String, ascii a ++ ascii b = ascii (a ++ b) := by
    intro a b
    unfold ascii
    rw [String.toList_append, List.map_append]
  cases sets with
  | none => exact List.nil_sublist _
  | some s =>
      show Within (_ ++ _) ([name, "complete_" ++ name] ++ ["allowed_" ++ name])
      apply Within.append
      · apply within_self
        simp only [List.map_cons, List.map_nil, hjoin]
      · apply Within.ite
        apply within_self
        simp only [List.map_cons, List.map_nil, hjoin]

theorem within_typeAttributes (a : Attr) :
    Within (typeAttributes a) ["cache_size", "bridge_type", "depth", "cache_linesize",
      "cache_associativity", "cache_type", "kind", "subkind", "dont_merge", "local_memory",
      "bridge_pci"] := by
  cases a with
  | cache level c => exact List.isSublist_iff_sublist.mp (by rfl)
  | group g =>
      have h : Within (typeAttributes (.group g)) (["kind", "subkind"] ++ ["dont_merge"]) :=
        (within_self rfl).append (within_self rfl).ite
      exact h.trans (List.isSublist_iff_sublist.mp (by rfl))
  | numaNode n =>
      have h : Within (typeAttributes (.numaNode n)) ["local_memory"] := (within_self rfl).ite
      exact h.trans (List.isSublist_iff_sublist.mp (by rfl))
  | bridge b =>
      have h : Within (typeAttributes (.bridge b)) (["bridge_type", "depth"] ++ ["bridge_pci"]) :=
        (within_self rfl).append (within_self rfl).ite
      exact h.trans (List.isSublist_iff_sublist.mp (by rfl))
  | machine => exact List.nil_sublist _
  | package => exact List.nil_sublist _
  | die => exact List.nil_sublist _
  | core => exact List.nil_sublist _
  | pu => exact List.nil_sublist _
  | memCache => exact List.nil_sublist _
  | pciDevice pcidev => exact List.nil_sublist _
  | osDevice => exact List.nil_sublist _
  | misc => exact List.nil_sublist _
  | added n => exact List.nil_sublist _

theorem within_pciAttributes (pcieMax : PcieMaxMap) (d : Data) :
    Within (pciAttributes pcieMax d) ["pci_busid", "pci_type", "pci_link_speed"] := by
  unfold pciAttributes
  split
  · show Within (_ ++ _) (["pci_busid", "pci_type"] ++ ["pci_link_speed"])
    apply Within.append (within_self rfl)
    split
    · exact within_self rfl
    · exact List.nil_sublist _
  · exact List.nil_sublist _

theorem attributes_sublist (p : Printer) (topo : Topology) (pcieMax : PcieMaxMap) (root : Bool)
    (d : Data) :
    ((attributes p topo pcieMax root d).map Prod.fst).Sublist kAttributes := by
  have htype : Within [(ascii "type", ascii (p.typeString d.attr.type))] ["type"] :=
    within_self rfl
  have hos : Within
      (if d.osIndex ≠ kUnknownIndex then [(ascii "os_index", toText d.osIndex.toNat)] else [])
      ["os_index"] := (within_self rfl).ite
  have hgp : Within [(ascii "gp_index", toText d.gpIndex.toNat)] ["gp_index"] :=
    within_self rfl
  exact (((((htype.append hos).append
    (within_setAttributes p "cpuset" d.cpuset root topo.allowedCpuset)).append
    (within_setAttributes p "nodeset" d.nodeset root topo.allowedNodeset)).append hgp).append
    (within_typeAttributes d.attr)).append (within_pciAttributes pcieMax d)

theorem isName_of_mem : forall name, name ∈ kAttributes -> Xml.isName name = true := by
  unfold kAttributes
  decide

theorem attributes_proper (p : Printer) (topo : Topology) (pcieMax : PcieMaxMap) (root : Bool)
    (d : Data) : Xml.Proper (ascii "object") (attributes p topo pcieMax root d) := by
  have hsublist := attributes_sublist p topo pcieMax root d
  constructor
  · rfl
  · intro a ha
    exact isName_of_mem _ (hsublist.subset (List.mem_map_of_mem ha))
  · apply hsublist.nodup
    unfold kAttributes
    decide

/-!
## What a step of the emitter adds
-/

/-- The output grows by a text that is read as some elements. -/
def Adds (e e' : Emitter) (es : List Xml.Element) : Prop :=
  exists t, e'.out = e.out ++ t ∧ Xml.Reads t es

theorem Adds.of_out {e e' : Emitter} (h : e'.out = e.out) : Adds e e' [] :=
  ⟨[], by rw [h, List.append_nil], Xml.Reads.nil⟩

theorem Adds.trans {e e' e'' : Emitter} {es es' : List Xml.Element} (h : Adds e e' es)
    (h' : Adds e' e'' es') : Adds e e'' (es ++ es') := by
  obtain ⟨t, ht, hreads⟩ := h
  obtain ⟨t', ht', hreads'⟩ := h'
  exact ⟨t ++ t', by rw [ht', ht, List.append_assoc], hreads.append hreads'⟩

theorem adds_element (e : Emitter) (depth : Nat) (tag : String) (attrs : Attrs)
    (h : Xml.Proper (ascii tag) attrs) :
    Adds e (e.element depth tag attrs) [.mk (ascii tag) (Xml.shown attrs) []] := by
  refine ⟨_, rfl, ?_⟩
  rw [List.append_assoc, List.append_assoc, List.append_assoc, <- List.append_assoc (ascii "<"),
    <- List.append_assoc (ascii "<" ++ ascii tag)]
  exact (Xml.Reads.spaces depth).append (Xml.Reads.empty h)

/-- Going through a list adds what each of its items adds. -/
theorem adds_foldl {A : Type} {step : Emitter -> A -> Emitter} {es : A -> List Xml.Element}
    (hstep : forall e a, Adds e (step e a) (es a)) (items : List A) (e : Emitter) :
    Adds e (items.foldl step e) (items.flatMap es) := by
  induction items generalizing e with
  | nil => exact Adds.of_out rfl
  | cons a rest ih => exact (hstep e a).trans (ih (step e a))

theorem forall_mem_pair {A : Type} {P : A -> Prop} {a b : A} (ha : P a) (hb : P b) :
    forall x, x ∈ [a, b] -> P x := by
  intro x hx
  rw [List.mem_pair] at hx
  cases hx with
  | inl hx =>
      rw [hx]
      exact ha
  | inr hx =>
      rw [hx]
      exact hb

theorem adds_pageType (depth : Nat) (e : Emitter) (page : PageType) :
    Adds e (e.pageType depth page) [pageElement page] := by
  apply adds_element
  constructor
  · rfl
  · exact forall_mem_pair rfl rfl
  · show [ascii "size", ascii "count"].Nodup
    decide

theorem infoElement_proper (info : Bytes × Bytes) :
    Xml.Proper (ascii "info") [(ascii "name", info.1), (ascii "value", info.2)] := by
  constructor
  · rfl
  · exact forall_mem_pair rfl rfl
  · show [ascii "name", ascii "value"].Nodup
    decide

/-- A name of the lists is read as it is written. -/
theorem adds_infoElement {name : Bytes} (depth : Nat) (e : Emitter) (value : Bytes)
    (h : Xml.visible name = name) :
    Adds e (e.element depth "info" [(ascii "name", name), (ascii "value", value)])
      [infoElement (name, value)] := by
  have hadds := adds_element e depth "info" _ (infoElement_proper (name, value))
  unfold Xml.shown at hadds
  rw [List.map_cons, List.map_cons, h] at hadds
  exact hadds

theorem visible_of_allowed : forall name, name ∈ kInfoAllowlist -> Xml.visible name = name := by
  unfold kInfoAllowlist
  decide

theorem allowedInfos_cons (i : Info) (rest : List Info) :
    allowedInfos (i :: rest) = allowedInfos [i] ++ allowedInfos rest := by
  unfold allowedInfos
  rw [<- List.filterMap_append]
  rfl

theorem ostia_not_allowed {name : Bytes}
    (h : name = ascii "OstiaPCIeMaxGen" ∨ name = ascii "OstiaPCIeMaxWidth") :
    kInfoAllowlist.contains name = false := by
  cases h with
  | inl h =>
      rw [h]
      decide
  | inr h =>
      rw [h]
      decide

theorem adds_info (depth : Nat) (e : Emitter) (i : Info) :
    Adds e (e.info depth i) ((allowedInfos [i]).map infoElement) := by
  unfold Emitter.info allowedInfos
  simp only
  split_ifs with hostia hdropped
  · rw [List.filterMap_cons, if_neg (ne_true_of_eq_false (ostia_not_allowed hostia))]
    exact Adds.of_out rfl
  · rw [List.filterMap_cons, if_neg (ne_true_of_eq_false hdropped)]
    exact Adds.of_out rfl
  · rw [Bool.not_eq_false] at hdropped
    rw [List.filterMap_cons, if_pos hdropped]
    exact adds_infoElement depth e _ (visible_of_allowed _ (List.contains_iff_mem.mp hdropped))

theorem adds_maximum {name : String} (depth : Nat) (e : Emitter) (n : Int)
    (h : Xml.visible (ascii name) = ascii name) :
    Adds e (e.maximum depth name n)
      ((if n ≠ 0 then [(ascii name, toText n)] else []).map infoElement) := by
  unfold Emitter.maximum
  split_ifs
  · exact adds_infoElement depth e _ h
  · exact Adds.of_out rfl

theorem flatMap_infoElement (infos : List Info) :
    infos.flatMap (fun i => (allowedInfos [i]).map infoElement) =
      (allowedInfos infos).map infoElement := by
  induction infos with
  | nil => rfl
  | cons i rest ih => rw [List.flatMap_cons, ih, allowedInfos_cons i rest, List.map_append]

theorem adds_ownContent (pcieMax : PcieMaxMap) (depth : Nat) (d : Data) (e : Emitter) :
    Adds e (Emitter.ownContent pcieMax depth d e) (ownElements pcieMax d) := by
  have hpages := adds_foldl (adds_pageType depth) d.attr.pageTypes e
  have hinfos := adds_foldl (adds_info depth) d.infos
    (d.attr.pageTypes.foldl (Emitter.pageType depth) e)
  rw [<- List.map_eq_flatMap] at hpages
  rw [flatMap_infoElement] at hinfos
  apply (hpages.trans hinfos).trans
  unfold Emitter.ownContent sysfsInfos maxOf
  cases d.busIdOf with
  | none => exact Adds.of_out rfl
  | some id =>
      cases hmax : pcieMax id with
      | none =>
          simp only [Option.isSome_some, if_true, Option.bind_some, hmax, Option.getD_none,
            List.map_nil]
          exact Adds.of_out rfl
      | some max =>
          simp only [Option.isSome_some, if_true, Option.bind_some, hmax, Option.getD_some,
            List.map_append]
          exact (adds_maximum _ _ max.gen (by decide)).trans
            (adds_maximum _ _ max.width (by decide))

/-!
## The whole document
-/

section

variable (p : Printer) (topo : Topology) (pcieMax : PcieMaxMap)

/-- An object is closed at once or after what it holds; both are read as the same element. -/
theorem adds_kept {depth : Nat} {attrs : Attrs} {e inside : Emitter} {t : Bytes}
    {children : List Xml.Element} (h : Xml.Proper (ascii "object") attrs)
    (hbody : inside.out = [] ++ t) (hreads : Xml.Reads t children) :
    let opened := e.append (Xml.spaces depth ++ ascii "<object" ++
      attrs.flatMap Xml.attributeText)
    Adds e
      (if inside.out = [] then { inside with out := opened.out }.append (ascii "/>\n")
        else { inside with out := opened.out }.append
          (ascii ">\n" ++ inside.out ++ Xml.spaces depth ++ ascii "</object>\n"))
      [.mk (ascii "object") (Xml.shown attrs) children] := by
  rw [List.nil_append] at hbody
  rw [hbody]
  split_ifs with hempty
  · rw [hempty] at hreads
    rw [hreads.eq_nil]
    refine ⟨Xml.spaces depth ++ (ascii "<" ++ ascii "object" ++
      attrs.flatMap Xml.attributeText ++ ascii "/>\n"), ?_,
      (Xml.Reads.spaces depth).append (Xml.Reads.empty h)⟩
    show e.out ++ (Xml.spaces depth ++ (ascii "<" ++ ascii "object") ++ _) ++ _ = _
    simp only [List.append_assoc]
  · have hinside : Xml.Reads (t ++ Xml.spaces depth) (children ++ []) :=
      hreads.append (Xml.Reads.spaces depth)
    rw [List.append_nil] at hinside
    refine ⟨Xml.spaces depth ++ (ascii "<" ++ ascii "object" ++
      attrs.flatMap Xml.attributeText ++ ascii ">\n" ++ (t ++ Xml.spaces depth) ++
        (ascii "</" ++ ascii "object" ++ ascii ">\n")), ?_,
      (Xml.Reads.spaces depth).append (Xml.Reads.around h hinside)⟩
    show e.out ++ (Xml.spaces depth ++ (ascii "<" ++ ascii "object") ++ _) ++
      (ascii ">\n" ++ t ++ Xml.spaces depth ++ (ascii "</" ++ ascii "object" ++ ascii ">\n")) = _
    simp only [List.append_assoc]

mutual

theorem adds_object (root : Bool) (depth : Nat) (o : Obj) (e : Emitter) :
    Adds e (object p topo pcieMax root depth o e) (published p topo pcieMax root o) := by
  cases o with
  | mk data memory normal io misc =>
      have hchildren : forall (d : Nat) (e : Emitter), Adds e
          (objects p topo pcieMax d misc (objects p topo pcieMax d io
            (objects p topo pcieMax d normal (objects p topo pcieMax d memory e))))
          (publishedOf p topo pcieMax memory ++ publishedOf p topo pcieMax normal ++
            publishedOf p topo pcieMax io ++ publishedOf p topo pcieMax misc) := by
        intro d e
        exact (((adds_objects d memory e).trans (adds_objects d normal _)).trans
          (adds_objects d io _)).trans (adds_objects d misc _)
      rw [object, published]
      cases disposition data.attr.type with
      | splice => exact (Adds.of_out rfl).trans (hchildren depth _)
      | drop => exact Adds.of_out rfl
      | keep =>
          obtain ⟨t, ht, hreads⟩ := (adds_ownContent pcieMax (depth + 1) data
            { e.append (Xml.spaces depth ++ ascii "<object" ++
              (attributes p topo pcieMax root data).flatMap Xml.attributeText) with
                out := [] }).trans (hchildren (depth + 1) _)
          exact adds_kept (attributes_proper p topo pcieMax root data) ht hreads

theorem adds_objects (depth : Nat) (os : List Obj) (e : Emitter) :
    Adds e (objects p topo pcieMax depth os e) (publishedOf p topo pcieMax os) := by
  cases os with
  | nil => exact Adds.of_out rfl
  | cons o rest =>
      rw [objects, publishedOf]
      exact (adds_object false depth o e).trans (adds_objects depth rest _)

end

/-- The written document is read as the allowed part of the tree. -/
theorem decode_emitXml :
    decode (emitXml p topo pcieMax).1 =
      some (.mk (ascii "topology") [(ascii "version", ascii "2.0")]
        (published p topo pcieMax true topo.root)) := by
  obtain ⟨t, ht, hreads⟩ := adds_object p topo pcieMax true 1 topo.root
    ⟨prologue ++ ascii "<topology version=\"2.0\">\n", OrdMap.empty, 0⟩
  have hproper : Xml.Proper (ascii "topology") [(ascii "version", ascii "2.0")] := by
    constructor
    · rfl
    · intro a ha
      rw [List.mem_singleton.mp ha]
      rfl
    · exact List.nodup_singleton _
  have htext : (emitXml p topo pcieMax).1 = prologue ++
      (ascii "<" ++ ascii "topology" ++ [(ascii "version", ascii "2.0")].flatMap
        Xml.attributeText ++ ascii ">\n" ++ t ++
          (ascii "</" ++ ascii "topology" ++ ascii ">\n")) := by
    show (object p topo pcieMax true 1 topo.root _).out ++ _ = _
    rw [ht, List.append_assoc, List.append_assoc]
    rfl
  unfold decode
  rw [htext, if_pos (List.isPrefixOf_iff_prefix.mpr (List.prefix_append _ _)),
    List.drop_left]
  exact Xml.read_around hproper hreads

end

end Hwloc
end Capture
end Ostia

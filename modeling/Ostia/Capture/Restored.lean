import Ostia.Capture.EmittedXml

/-!
# The tree that is read back

The objects, attributes and infos that hwloc.xml holds make a tree again.  The objects that the
facts are about stand in it in the same order, and below the same devices.
-/

namespace Ostia
namespace Capture
namespace Hwloc

open Foundation

/-!
## What is read back
-/

/-- The attributes that are written, as an object has them that was created from these. -/
def Attr.restored : Attr -> Attr
  | .group g => .group { g with dontMerge := if g.dontMerge ≠ 0 then 1 else 0 }
  | .bridge b =>
      .bridge { b with downstream := if b.downstreamType = .pci then b.downstream else ⟨0, 0, 0⟩ }
  | a => a

/-- An info as it is read back. -/
def restoredInfo (info : Bytes × Bytes) : Info := ⟨some info.1, some (Xml.visible info.2)⟩

def Data.restored (pcieMax : PcieMaxMap) (d : Data) : Data :=
  { d with
    attr := d.attr.restored
    infos := (allowedInfos d.infos ++ sysfsInfos pcieMax d).map restoredInfo }

section

variable (pcieMax : PcieMaxMap)

mutual

/-- The objects that are written for one, with the attributes and infos that are written. -/
def Obj.restored : Obj -> List Obj
  | .mk data memory normal io misc =>
      match disposition data.attr.type with
      | .splice =>
          Obj.restoredOf memory ++ Obj.restoredOf normal ++ Obj.restoredOf io ++
            Obj.restoredOf misc
      | .drop => []
      | .keep =>
          [.mk (data.restored pcieMax) (Obj.restoredOf memory) (Obj.restoredOf normal)
            (Obj.restoredOf io) (Obj.restoredOf misc)]

def Obj.restoredOf : List Obj -> List Obj
  | [] => []
  | o :: rest => Obj.restored o ++ Obj.restoredOf rest

end

/-- The topology of a written document, unless its root is not kept. -/
def Topology.restored (topo : Topology) : Option Topology :=
  match topo.root.restored pcieMax with
  | [root] => some { topo with root := root }
  | _ => none

end

/-!
## Places of what is read back
-/

/-- The types of objects that the facts are about. -/
def isRelevant : ObjType -> Bool
  | .package => true
  | .pu => true
  | .numaNode => true
  | .bridge => true
  | .pciDevice => true
  | _ => false

def Place.relevant (p : Place) : Bool := isRelevant p.type

def Data.isKept (d : Data) : Bool :=
  match disposition d.attr.type with
  | .keep => true
  | _ => false

/-- Nothing that matters is left out with an object above it. -/
def NothingHidden (places : List Place) : Prop :=
  forall p, p ∈ places -> p.relevant = true ->
    forall d, d ∈ p.above -> disposition d.attr.type ≠ .drop

def restoredAbove (pcieMax : PcieMaxMap) (above : List Data) : List Data :=
  (above.filter Data.isKept).map (Data.restored pcieMax)

def Place.restored (pcieMax : PcieMaxMap) (p : Place) : Place :=
  ⟨p.data.restored pcieMax, restoredAbove pcieMax p.above⟩

theorem type_restored (pcieMax : PcieMaxMap) (d : Data) :
    (d.restored pcieMax).attr.type = d.attr.type := by
  unfold Data.restored Attr.restored
  cases d.attr <;> rfl

theorem placesOf_append (above : List Data) (xs ys : List Obj) :
    Obj.placesOf above (xs ++ ys) = Obj.placesOf above xs ++ Obj.placesOf above ys := by
  induction xs with
  | nil => rfl
  | cons o rest ih =>
      rw [List.cons_append, Obj.placesOf, Obj.placesOf, ih, List.append_assoc]

theorem NothingHidden.left {ps qs : List Place} (h : NothingHidden (ps ++ qs)) :
    NothingHidden ps := by
  intro p hp
  exact h p (List.mem_append_left qs hp)

theorem NothingHidden.right {ps qs : List Place} (h : NothingHidden (ps ++ qs)) :
    NothingHidden qs := by
  intro p hp
  exact h p (List.mem_append_right ps hp)

mutual

/-- What was above a tree is above each of its objects. -/
theorem Obj.above_subset (o : Obj) (above : List Data) {p : Place} (h : p ∈ o.places above) :
    above ⊆ p.above := by
  cases o with
  | mk data memory normal io misc =>
      rw [Obj.places, List.mem_cons] at h
      cases h with
      | inl h =>
          rw [h]
          exact List.Subset.refl _
      | inr h =>
          have hcons : data :: above ⊆ p.above := by
            rw [List.mem_append, List.mem_append, List.mem_append] at h
            obtain ((h | h) | h) | h := h
            · exact Obj.aboveOf_subset memory (data :: above) h
            · exact Obj.aboveOf_subset normal (data :: above) h
            · exact Obj.aboveOf_subset io (data :: above) h
            · exact Obj.aboveOf_subset misc (data :: above) h
          exact List.Subset.trans (List.subset_cons_self data above) hcons

theorem Obj.aboveOf_subset (os : List Obj) (above : List Data) {p : Place}
    (h : p ∈ Obj.placesOf above os) : above ⊆ p.above := by
  cases os with
  | nil => cases h
  | cons o rest =>
      rw [Obj.placesOf, List.mem_append] at h
      cases h with
      | inl h => exact Obj.above_subset o above h
      | inr h => exact Obj.aboveOf_subset rest above h

end

/-- The children of an object, in the order of the lists. -/
abbrev childPlaces (above : List Data) (memory normal io misc : List Obj) : List Place :=
  Obj.placesOf above memory ++ Obj.placesOf above normal ++ Obj.placesOf above io ++
    Obj.placesOf above misc

theorem mem_above_of_childPlaces {d : Data} {above : List Data}
    {memory normal io misc : List Obj} {p : Place}
    (h : p ∈ childPlaces (d :: above) memory normal io misc) : d ∈ p.above := by
  rw [List.mem_append, List.mem_append, List.mem_append] at h
  obtain ((h | h) | h) | h := h
  · exact Obj.aboveOf_subset memory _ h List.mem_cons_self
  · exact Obj.aboveOf_subset normal _ h List.mem_cons_self
  · exact Obj.aboveOf_subset io _ h List.mem_cons_self
  · exact Obj.aboveOf_subset misc _ h List.mem_cons_self

theorem isRelevant_of_drop {type : ObjType} (h : disposition type = .drop) :
    isRelevant type = false := by
  cases type with
  | osDevice => rfl
  | misc => rfl
  | added n => rfl
  | _ => cases h

theorem isRelevant_of_splice {type : ObjType} (h : disposition type = .splice) :
    isRelevant type = false := by
  cases type with
  | memCache => rfl
  | _ => cases h

theorem relevant_of_drop {data : Data} {above : List Data} {memory normal io misc : List Obj}
    {p : Place} (hdrop : disposition data.attr.type = .drop)
    (h : NothingHidden (Obj.places above (.mk data memory normal io misc)))
    (hp : p ∈ Obj.places above (.mk data memory normal io misc)) : p.relevant = false := by
  have hhidden := h p hp
  rw [Obj.places, List.mem_cons] at hp
  cases hp with
  | inl hp =>
      rw [hp]
      exact isRelevant_of_drop hdrop
  | inr hp =>
      rw [<- Bool.not_eq_true]
      intro hrelevant
      exact hhidden hrelevant data (mem_above_of_childPlaces hp) hdrop

section

variable {pcieMax : PcieMaxMap}

theorem relevant_restored (p : Place) : (p.restored pcieMax).relevant = p.relevant := by
  unfold Place.relevant Place.type Place.restored
  rw [type_restored]

theorem filter_cons_restored (p : Place) {ps qs : List Place}
    (h : qs.filter Place.relevant = (ps.filter Place.relevant).map (Place.restored pcieMax)) :
    (p.restored pcieMax :: qs).filter Place.relevant =
      ((p :: ps).filter Place.relevant).map (Place.restored pcieMax) := by
  have hself := @relevant_restored pcieMax p
  cases hrelevant : p.relevant with
  | true =>
      rw [hrelevant] at hself
      rw [List.filter_cons_of_pos hrelevant, List.filter_cons_of_pos hself, h, List.map_cons]
  | false =>
      rw [hrelevant] at hself
      rw [List.filter_cons_of_neg (ne_true_of_eq_false hrelevant),
        List.filter_cons_of_neg (ne_true_of_eq_false hself), h]

/-- The relevant objects of the parts of a list are those of the list. -/
theorem filter_childPlaces {above : List Data} {memory normal io misc : List Obj}
    {above' : List Data} {memory' normal' io' misc' : List Obj}
    (hmemory : (Obj.placesOf above' memory').filter Place.relevant =
      ((Obj.placesOf above memory).filter Place.relevant).map (Place.restored pcieMax))
    (hnormal : (Obj.placesOf above' normal').filter Place.relevant =
      ((Obj.placesOf above normal).filter Place.relevant).map (Place.restored pcieMax))
    (hio : (Obj.placesOf above' io').filter Place.relevant =
      ((Obj.placesOf above io).filter Place.relevant).map (Place.restored pcieMax))
    (hmisc : (Obj.placesOf above' misc').filter Place.relevant =
      ((Obj.placesOf above misc).filter Place.relevant).map (Place.restored pcieMax)) :
    (childPlaces above' memory' normal' io' misc').filter Place.relevant =
      ((childPlaces above memory normal io misc).filter Place.relevant).map
        (Place.restored pcieMax) := by
  simp only [List.filter_append, List.map_append, hmemory, hnormal, hio, hmisc]

mutual

theorem Obj.places_restored (o : Obj) (above : List Data) (h : NothingHidden (o.places above)) :
    (Obj.placesOf (restoredAbove pcieMax above) (o.restored pcieMax)).filter Place.relevant =
      ((o.places above).filter Place.relevant).map (Place.restored pcieMax) := by
  cases o with
  | mk data memory normal io misc =>
      rw [Obj.places] at h
      have hbelow : NothingHidden (childPlaces (data :: above) memory normal io misc) := by
        intro p hp
        exact h p (List.mem_cons_of_mem _ hp)
      have hchildren := filter_childPlaces
        (Obj.placesOf_restored memory (data :: above) hbelow.left.left.left)
        (Obj.placesOf_restored normal (data :: above) hbelow.left.left.right)
        (Obj.placesOf_restored io (data :: above) hbelow.left.right)
        (Obj.placesOf_restored misc (data :: above) hbelow.right)
      rw [Obj.places, Obj.restored]
      cases hdisposition : disposition data.attr.type with
      | splice =>
          have hspliced : restoredAbove pcieMax (data :: above) = restoredAbove pcieMax above := by
            unfold restoredAbove Data.isKept
            rw [List.filter_cons_of_neg (by rw [hdisposition]; exact Bool.false_ne_true)]
          have hself : (⟨data, above⟩ : Place).relevant = false :=
            isRelevant_of_splice hdisposition
          rw [hspliced] at hchildren
          rw [List.filter_cons_of_neg (ne_true_of_eq_false hself), <- hchildren]
          simp only [placesOf_append]
      | drop =>
          have hnone : (Obj.places above (.mk data memory normal io misc)).filter
              Place.relevant = [] := by
            rw [List.filter_eq_nil_iff]
            intro p hp
            exact ne_true_of_eq_false (relevant_of_drop hdisposition h hp)
          rw [Obj.places] at hnone
          rw [hnone]
          rfl
      | keep =>
          have hkept : restoredAbove pcieMax (data :: above) =
              data.restored pcieMax :: restoredAbove pcieMax above := by
            unfold restoredAbove Data.isKept
            rw [List.filter_cons_of_pos (by rw [hdisposition])]
            rfl
          rw [hkept] at hchildren
          simp only [Obj.placesOf, Obj.places, List.append_nil]
          exact filter_cons_restored ⟨data, above⟩ hchildren

theorem Obj.placesOf_restored (os : List Obj) (above : List Data)
    (h : NothingHidden (Obj.placesOf above os)) :
    (Obj.placesOf (restoredAbove pcieMax above) (Obj.restoredOf pcieMax os)).filter
        Place.relevant =
      ((Obj.placesOf above os).filter Place.relevant).map (Place.restored pcieMax) := by
  cases os with
  | nil => rfl
  | cons o rest =>
      rw [Obj.placesOf] at h
      rw [Obj.restoredOf, placesOf_append, Obj.placesOf, List.filter_append,
        List.filter_append, List.map_append, Obj.places_restored o above h.left,
        Obj.placesOf_restored rest above h.right]

end

end

/-!
## What is above a PCI device
-/

theorem relevant_of_isPci {p : Place} (h : p.data.isPci = true) : p.relevant = true := by
  unfold Data.isPci at h
  unfold Place.relevant Place.type
  cases htype : p.data.attr.type with
  | bridge => rfl
  | pciDevice => rfl
  | _ =>
      rw [htype] at h
      cases h

theorem OfKind.head {kind : Kind} {o : Obj} {rest : List Obj} (h : OfKind kind (o :: rest)) :
    o.type.kind = some kind ∨ o.type.kind = none := h o List.mem_cons_self

theorem OfKind.tail {kind : Kind} {o : Obj} {rest : List Obj} (h : OfKind kind (o :: rest)) :
    OfKind kind rest := by
  intro o' ho'
  exact h o' (List.mem_cons_of_mem o ho')

theorem drop_of_kind_misc {type : ObjType}
    (h : type.kind = some .misc ∨ type.kind = none) : disposition type = .drop := by
  cases type with
  | misc => rfl
  | added n => rfl
  | _ => cases h with
    | inl h => cases h
    | inr h => cases h

theorem not_isPci_of_relevant {p : Place} (h : p.relevant = false) : p.data.isPci = false := by
  rw [<- Bool.not_eq_true]
  intro hpci
  rw [relevant_of_isPci hpci] at h
  cases h

/-- There is no PCI device under the objects of a list that are all dropped. -/
theorem noPci_of_misc {os : List Obj} {above : List Data} (hkind : OfKind .misc os)
    (h : NothingHidden (Obj.placesOf above os)) {p : Place} (hp : p ∈ Obj.placesOf above os) :
    p.data.isPci = false := by
  induction os with
  | nil => cases hp
  | cons o rest ih =>
      rw [Obj.placesOf] at h hp
      rw [List.mem_append] at hp
      cases hp with
      | inl hp =>
          cases o with
          | mk data memory normal io misc =>
              exact not_isPci_of_relevant
                (relevant_of_drop (drop_of_kind_misc hkind.head) h.left hp)
      | inr hp => exact ih hkind.tail h.right hp

mutual

/-- There is no PCI device under a memory object. -/
theorem Obj.noPci (o : Obj) (above : List Data) (hshape : o.Shaped)
    (hkind : o.type.kind = some .memory ∨ o.type.kind = none)
    (h : NothingHidden (o.places above)) {p : Place} (hp : p ∈ o.places above) :
    p.data.isPci = false := by
  cases o with
  | mk data memory normal io misc =>
      obtain ⟨hkinds, hmemoryKind, hioKind, hzero, hmemory, hnormal, hio, hmisc⟩ := hshape
      cases hkind with
      | inr hkind =>
          exact not_isPci_of_relevant (relevant_of_drop (drop_of_kind_misc (.inr hkind)) h hp)
      | inl hkind =>
          obtain ⟨hnoNormal, hnoIo⟩ := hmemoryKind hkind
          rw [Obj.places] at h hp
          rw [List.mem_cons] at hp
          have hbelow : NothingHidden (childPlaces (data :: above) memory normal io misc) := by
            intro p hp
            exact h p (List.mem_cons_of_mem _ hp)
          cases hp with
          | inl hp =>
              rw [hp]
              show (decide _ || decide _) = false
              cases htype : data.attr.type with
              | bridge =>
                  rw [show (Obj.mk data memory normal io misc).type = data.attr.type from rfl,
                    htype] at hkind
                  cases hkind
              | pciDevice =>
                  rw [show (Obj.mk data memory normal io misc).type = data.attr.type from rfl,
                    htype] at hkind
                  cases hkind
              | _ => rfl
          | inr hp =>
              rw [List.mem_append, List.mem_append, List.mem_append] at hp
              obtain ((hp | hp) | hp) | hp := hp
              · exact Obj.noPciOf memory _ hmemory hkinds.1 hbelow.left.left.left hp
              · rw [hnoNormal] at hp
                cases hp
              · rw [hnoIo] at hp
                cases hp
              · exact noPci_of_misc hkinds.2.2.2 hbelow.right hp

theorem Obj.noPciOf (os : List Obj) (above : List Data) (hshape : Obj.ShapedOf os)
    (hkind : OfKind .memory os) (h : NothingHidden (Obj.placesOf above os)) {p : Place}
    (hp : p ∈ Obj.placesOf above os) : p.data.isPci = false := by
  cases os with
  | nil => cases hp
  | cons o rest =>
      rw [Obj.placesOf] at h hp
      rw [List.mem_append] at hp
      cases hp with
      | inl hp => exact Obj.noPci o above hshape.1 hkind.head h.left hp
      | inr hp => exact Obj.noPciOf rest above hshape.2 hkind.tail h.right hp

end

/-- What is not set in a new bridge is zero. -/
def Data.Zeroed (d : Data) : Prop :=
  forall b, d.attr = .bridge b -> b.downstreamType ≠ .pci -> b.downstream = ⟨0, 0, 0⟩

/-- The object is kept and read back as it was. -/
def Data.Clear (d : Data) : Prop := d.isKept = true ∧ d.Zeroed

def Place.Clear (p : Place) : Prop := p.data.Zeroed ∧ forall d, d ∈ p.above -> d.Clear

mutual

theorem Obj.clear (o : Obj) (above : List Data) (hshape : o.Shaped)
    (h : NothingHidden (o.places above)) (habove : forall d, d ∈ above -> d.Clear) {p : Place}
    (hp : p ∈ o.places above) (hpci : p.data.isPci = true) : p.Clear := by
  cases o with
  | mk data memory normal io misc =>
      have hnone : p.data.isPci = false -> p.Clear := by
        intro hno
        rw [hno] at hpci
        cases hpci
      cases hdisposition : disposition data.attr.type with
      | drop => exact hnone (not_isPci_of_relevant (relevant_of_drop hdisposition h hp))
      | splice =>
          have hkind : data.attr.type.kind = some .memory := by
            cases htype : data.attr.type with
            | memCache => rfl
            | _ =>
                rw [htype] at hdisposition
                cases hdisposition
          exact hnone (Obj.noPci _ above hshape (.inl hkind) h hp)
      | keep =>
          obtain ⟨_, _, _, hzero, hmemory, hnormal, hio, hmisc⟩ := hshape
          have hkept : data.isKept = true := by
            unfold Data.isKept
            rw [hdisposition]
          have hcons : forall d, d ∈ data :: above -> d.Clear := by
            rw [List.forall_mem_cons]
            exact ⟨⟨hkept, hzero⟩, habove⟩
          rw [Obj.places] at h hp
          rw [List.mem_cons] at hp
          have hbelow : NothingHidden (childPlaces (data :: above) memory normal io misc) := by
            intro p hp
            exact h p (List.mem_cons_of_mem _ hp)
          cases hp with
          | inl hp =>
              rw [hp]
              exact ⟨hzero, habove⟩
          | inr hp =>
              rw [List.mem_append, List.mem_append, List.mem_append] at hp
              obtain ((hp | hp) | hp) | hp := hp
              · exact Obj.clearOf memory _ hmemory hbelow.left.left.left hcons hp hpci
              · exact Obj.clearOf normal _ hnormal hbelow.left.left.right hcons hp hpci
              · exact Obj.clearOf io _ hio hbelow.left.right hcons hp hpci
              · exact Obj.clearOf misc _ hmisc hbelow.right hcons hp hpci

theorem Obj.clearOf (os : List Obj) (above : List Data) (hshape : Obj.ShapedOf os)
    (h : NothingHidden (Obj.placesOf above os)) (habove : forall d, d ∈ above -> d.Clear)
    {p : Place} (hp : p ∈ Obj.placesOf above os) (hpci : p.data.isPci = true) : p.Clear := by
  cases os with
  | nil => cases hp
  | cons o rest =>
      rw [Obj.placesOf] at h hp
      rw [List.mem_append] at hp
      cases hp with
      | inl hp => exact Obj.clear o above hshape.1 h.left habove hp hpci
      | inr hp => exact Obj.clearOf rest above hshape.2 h.right habove hp hpci

end

end Hwloc
end Capture
end Ostia

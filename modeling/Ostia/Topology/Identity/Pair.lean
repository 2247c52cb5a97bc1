import Mathlib.Data.List.Forall2
import Ostia.Topology.Compact

/-!
# The identity of a pair

Two node ids and a pair document give one id.  The ids are sorted, and the ends
of each rail follow their ids; when the ids are equal there is no order to
follow, and the smaller of the two orientations is hashed.

The order in which the nodes are named does not matter, and two inputs with the
same hashed text name the same nodes, the same link class and the same rails.
-/

namespace Ostia
namespace Topology

open Foundation

namespace Identity

/-!
## The hashed text
-/

/-- Set an end of a rail, unless it is null. -/
def setEnd (key : String) (v : Json) (rail : List (String × Json)) :
    List (String × Json) :=
  if v.isNull then rail else OrdMap.insertEntry key v rail

/-- A rail with its node-0 and node-1 entries exchanged. -/
def swapRail : Json -> Json
  | .obj rail =>
      let first := (OrdMap.lookup "node-0" rail).getD .null
      let second := (OrdMap.lookup "node-1" rail).getD .null
      let bare := (rail.filter fun e => e.1 ≠ "node-0").filter fun e => e.1 ≠ "node-1"
      .obj (setEnd "node-1" first (setEnd "node-0" second bare))
  | rail => rail

/-- Each rail with its ends exchanged; other fields and the order of rails stay. -/
def swapEnds : Json -> Json
  | .arr rails => .arr (rails.map swapRail)
  | rails => rails

def railsOf (pair : Json) : Json := (pair.get? "rails").getD .null

def linkClassOf (pair : Json) : Json := (pair.get? "link_class").getD .null

/-- The document of the sorted ids, the link class and the rails, as text. -/
def structural (dump : Json -> String) (lo hi : String) (linkClass rails : Json) :
    String :=
  dump (.obj [("link_class", linkClass), ("nodes", .arr [.str lo, .str hi]),
    ("rails", rails)])

/-- The text that is hashed. -/
def pairText (dump : Json -> String) (id0 id1 : String) (pair : Json) : String :=
  let rails := railsOf pair
  let text := structural dump (min id0 id1) (max id0 id1) (linkClassOf pair)
  if id0 ≠ id1 then text (if id1 < id0 then swapEnds rails else rails)
  else min (text rails) (text (swapEnds rails))

def pairId (dump : Json -> String) (sha256Hex : String -> String)
    (id0 id1 : String) (pair : Json) : String :=
  "topo1:sha256:" ++ sha256Hex (pairText dump id0 id1 pair)

/-!
## Rails and their ends
-/

/-- The objects of a JSON value iterate in the order of their keys. -/
def Ordered (rail : Json) : Prop :=
  forall fields, rail = .obj fields -> fields.Pairwise (fun a b => a.1 < b.1)

/-- A rail whose two ends are there. -/
def BothEnds (rail : Json) : Prop :=
  rail.isObject ∧
    (exists v, rail.get? "node-0" = some v ∧ v ≠ .null) ∧
    exists v, rail.get? "node-1" = some v ∧ v ≠ .null

/-- The end of a rail; a null end counts as none. -/
def endOf (rail : Json) (key : String) : Json := (rail.get? key).getD .null

/-- Two rails with the same fields, the ends of the first under the given keys of the second. -/
def SameRail (key0 key1 : String) (rail rail' : Json) : Prop :=
  if rail.isObject then
    rail'.isObject ∧ endOf rail "node-0" = endOf rail' key0 ∧
      endOf rail "node-1" = endOf rail' key1 ∧
      forall k, k ≠ "node-0" -> k ≠ "node-1" -> rail.get? k = rail'.get? k
  else rail = rail'

/-- Lists of rails that agree in order. -/
def SameRails (key0 key1 : String) : Json -> Json -> Prop
  | .arr rails, .arr rails' => List.Forall₂ (SameRail key0 key1) rails rails'
  | rails, rails' => rails = rails'

/-- Every rail has its ends where the other has them. -/
def Kept : Json -> Json -> Prop := SameRails "node-0" "node-1"

/-- Every rail has its two ends exchanged. -/
def Exchanged : Json -> Json -> Prop := SameRails "node-1" "node-0"

def OrderedRails (rails : Json) : Prop :=
  forall items, rails = .arr items -> forall rail, rail ∈ items -> Ordered rail

/-- Every rail is an object with two ends that are not null. -/
def Railed (rails : Json) : Prop :=
  forall items, rails = .arr items -> forall rail, rail ∈ items -> BothEnds rail

/-- A pair document; the rails that are objects iterate in the order of their keys. -/
structure PairDocument where
  json : Json
  ordered : OrderedRails (railsOf json)

namespace PairDocument

def rails (p : PairDocument) : Json := railsOf p.json

def linkClass (p : PairDocument) : Json := linkClassOf p.json

end PairDocument

/-!
## Exchanging the ends
-/

theorem get?_obj (fields : List (String × Json)) (k : String) :
    (Json.obj fields).get? k = OrdMap.lookup k fields := rfl

theorem ordered_iff {rail : Json} (hobj : rail.isObject) :
    Ordered rail <-> exists m, rail = Json.ofMap m := by
  cases rail with
  | obj fields =>
      constructor
      · intro h
        exact ⟨⟨fields, h fields rfl⟩, rfl⟩
      · intro h fields' heq
        rcases h with ⟨m, hm⟩
        rw [hm] at heq
        injection heq with hfields
        rw [← hfields]
        exact m.sorted
  | _ => cases hobj

/-- A null value counts as none. -/
def present (v : Option Json) : Option Json :=
  v.filter fun j => !j.isNull

theorem present_getD (v : Option Json) : (present v).getD .null = v.getD .null := by
  cases v with
  | none => rfl
  | some j => cases j <;> rfl

theorem present_some (j : Json) :
    present (some j) = if j.isNull then none else some j := by
  cases j <;> rfl

theorem present_of_ne {v : Json} (h : v ≠ .null) : present (some v) = some v := by
  cases v with
  | null => exact absurd rfl h
  | _ => rfl

theorem eq_some_of_getD {o : Option Json} {v : Json} (h : v = o.getD .null)
    (hv : v ≠ .null) : o = some v := by
  cases o with
  | none => exact absurd h hv
  | some w => rw [h, Option.getD_some]

/-- What a rail holds after an end is set. -/
theorem setEnd_spec (key : String) (v : Option Json) (m : OrdMap String Json) :
    exists m' : OrdMap String Json, setEnd key (v.getD .null) m.entries = m'.entries ∧
      forall k, m'.find? k = if k = key then (present v).or (m.find? k) else m.find? k := by
  unfold setEnd
  cases v with
  | none => exact ⟨m, rfl, fun k => by simp [present]⟩
  | some j =>
      cases hnull : j.isNull with
      | true => exact ⟨m, by simp [hnull], fun k => by simp [present_some, hnull]⟩
      | false =>
          refine ⟨m.insert key j, by simp [hnull, OrdMap.insert], ?_⟩
          intro k
          rw [OrdMap.find?_insert]
          simp [present_some, hnull]

/-- What a rail holds after the exchange. -/
theorem swapRail_spec (m : OrdMap String Json) :
    exists m' : OrdMap String Json, swapRail (Json.ofMap m) = Json.ofMap m' ∧
      m'.find? "node-0" = present (m.find? "node-1") ∧
      m'.find? "node-1" = present (m.find? "node-0") ∧
      forall k, k ≠ "node-0" -> k ≠ "node-1" -> m'.find? k = m.find? k := by
  rcases setEnd_spec "node-0" (m.find? "node-1") ((m.erase "node-0").erase "node-1") with
    ⟨half, hhalf, hfind⟩
  rcases setEnd_spec "node-1" (m.find? "node-0") half with ⟨m', hm', hfind'⟩
  refine ⟨m', ?_, ?_, ?_, ?_⟩
  · have hentries : swapRail (Json.ofMap m) =
        .obj (setEnd "node-1" ((m.find? "node-0").getD .null)
          (setEnd "node-0" ((m.find? "node-1").getD .null)
            ((m.erase "node-0").erase "node-1").entries)) := rfl
    rw [hentries, hhalf, hm']
    rfl
  · rw [hfind', hfind]
    simp [OrdMap.find?_erase]
  · rw [hfind', hfind]
    simp [OrdMap.find?_erase]
  · intro k h0 h1
    rw [hfind', hfind]
    simp [OrdMap.find?_erase, h0, h1]

theorem swapRail_of_not_isObject {rail : Json} (h : rail.isObject = false) :
    swapRail rail = rail := by
  cases rail with
  | obj fields => cases h
  | _ => rfl

/-- The exchange is one, on the ends as values or null. -/
theorem sameRail_swapRail {rail : Json} (h : Ordered rail) :
    SameRail "node-1" "node-0" rail (swapRail rail) := by
  unfold SameRail
  cases hobj : rail.isObject with
  | false =>
      rw [swapRail_of_not_isObject hobj]
      rfl
  | true =>
      rcases (ordered_iff hobj).mp h with ⟨m, rfl⟩
      rcases swapRail_spec m with ⟨m', hswap, h0, h1, hrest⟩
      rw [hswap]
      refine ⟨rfl, ?_, ?_, ?_⟩
      · calc
          endOf (Json.ofMap m) "node-0" = (m.find? "node-0").getD .null := rfl
          _ = (m'.find? "node-1").getD .null := by rw [h1, present_getD]
      · calc
          endOf (Json.ofMap m) "node-1" = (m.find? "node-1").getD .null := rfl
          _ = (m'.find? "node-0").getD .null := by rw [h0, present_getD]
      · intro k hk0 hk1
        exact (hrest k hk0 hk1).symm

theorem SameRail.isObject {key0 key1 : String} {rail rail' : Json}
    (h : SameRail key0 key1 rail rail') : rail.isObject = rail'.isObject := by
  unfold SameRail at h
  split_ifs at h with hobj
  · rw [hobj, h.1]
  · rw [h]

theorem SameRail.symm {rail rail' : Json} (h : SameRail "node-1" "node-0" rail rail') :
    SameRail "node-1" "node-0" rail' rail := by
  have hsame := h.isObject
  unfold SameRail at h ⊢
  split_ifs at h with hobj
  · rw [if_pos (hsame ▸ hobj)]
    exact ⟨hobj, h.2.2.1.symm, h.2.1.symm, fun k h0 h1 => (h.2.2.2 k h0 h1).symm⟩
  · rw [if_neg (hsame ▸ hobj)]
    exact h.symm

/-- Two exchanges bring the ends back. -/
theorem SameRail.trans {a b c : Json} (hab : SameRail "node-1" "node-0" a b)
    (hbc : SameRail "node-1" "node-0" b c) : SameRail "node-0" "node-1" a c := by
  have hsame := hab.isObject
  unfold SameRail at hab hbc ⊢
  split_ifs at hab with hobj
  · rw [if_pos hab.1] at hbc
    rw [if_pos hobj]
    exact ⟨hbc.1, hab.2.1.trans hbc.2.2.1, hab.2.2.1.trans hbc.2.1,
      fun k h0 h1 => (hab.2.2.2 k h0 h1).trans (hbc.2.2.2 k h0 h1)⟩
  · rw [if_neg (hsame ▸ hobj)] at hbc
    rw [if_neg hobj, hab, hbc]

theorem sameRail_ofMap {key0 key1 : String} {m : OrdMap String Json} {rail' : Json}
    (h' : Ordered rail') (h : SameRail key0 key1 (Json.ofMap m) rail') :
    exists m' : OrdMap String Json, rail' = Json.ofMap m' ∧
      (m.find? "node-0").getD .null = (m'.find? key0).getD .null ∧
      (m.find? "node-1").getD .null = (m'.find? key1).getD .null ∧
      forall k, k ≠ "node-0" -> k ≠ "node-1" -> m.find? k = m'.find? k := by
  have hobj : rail'.isObject := h.isObject.symm
  rcases (ordered_iff hobj).mp h' with ⟨m', rfl⟩
  exact ⟨m', rfl, h.2⟩

/-- Two maps that agree at both ends and elsewhere. -/
theorem ext_ends {m m' : OrdMap String Json}
    (h0 : m.find? "node-0" = m'.find? "node-0")
    (h1 : m.find? "node-1" = m'.find? "node-1")
    (hrest : forall k, k ≠ "node-0" -> k ≠ "node-1" -> m.find? k = m'.find? k) :
    m = m' := by
  apply OrdMap.ext_find?
  intro k
  by_cases hk0 : k = "node-0"
  · rw [hk0, h0]
  · by_cases hk1 : k = "node-1"
    · rw [hk1, h1]
    · exact hrest k hk0 hk1

/-- A rail with both ends and a rail with its ends exchanged. -/
theorem swapRail_eq {rail rail' : Json} (h : Ordered rail) (h' : Ordered rail')
    (hends : BothEnds rail) (hsame : SameRail "node-1" "node-0" rail rail') :
    swapRail rail = rail' := by
  rcases hends with ⟨hobj, ⟨v0, hv0, hne0⟩, ⟨v1, hv1, hne1⟩⟩
  rcases (ordered_iff hobj).mp h with ⟨m, rfl⟩
  have hfind0 : m.find? "node-0" = some v0 := hv0
  have hfind1 : m.find? "node-1" = some v1 := hv1
  rcases sameRail_ofMap h' hsame with ⟨m', rfl, hend0, hend1, hrest⟩
  rw [hfind0, Option.getD_some] at hend0
  rw [hfind1, Option.getD_some] at hend1
  rcases swapRail_spec m with ⟨m'', hswap, h0, h1, hother⟩
  rw [hswap]
  congr 1
  apply ext_ends
  · rw [h0, hfind1, present_of_ne hne1, eq_some_of_getD hend1 hne1]
  · rw [h1, hfind0, present_of_ne hne0, eq_some_of_getD hend0 hne0]
  · intro k hk0 hk1
    rw [hother k hk0 hk1, hrest k hk0 hk1]

/-- A rail with both ends is determined by its ends and its other fields. -/
theorem eq_of_sameRail {rail rail' : Json} (h : Ordered rail) (h' : Ordered rail')
    (hends : BothEnds rail) (hsame : SameRail "node-0" "node-1" rail rail') :
    rail = rail' := by
  rcases hends with ⟨hobj, ⟨v0, hv0, hne0⟩, ⟨v1, hv1, hne1⟩⟩
  rcases (ordered_iff hobj).mp h with ⟨m, rfl⟩
  have hfind0 : m.find? "node-0" = some v0 := hv0
  have hfind1 : m.find? "node-1" = some v1 := hv1
  rcases sameRail_ofMap h' hsame with ⟨m', rfl, hend0, hend1, hrest⟩
  rw [hfind0, Option.getD_some] at hend0
  rw [hfind1, Option.getD_some] at hend1
  congr 1
  apply ext_ends
  · rw [hfind0, eq_some_of_getD hend0 hne0]
  · rw [hfind1, eq_some_of_getD hend1 hne1]
  · exact hrest

/-!
## Lists of rails
-/

theorem SameRails.cases {key0 key1 : String} {r r' : Json}
    (h : SameRails key0 key1 r r') :
    (exists xs ys, r = .arr xs ∧ r' = .arr ys ∧
      List.Forall₂ (SameRail key0 key1) xs ys) ∨
    (r.isArray = false ∧ r = r') := by
  unfold SameRails at h
  split at h
  · rename_i xs ys
    exact Or.inl ⟨xs, ys, rfl, rfl, h⟩
  · rename_i hnot
    subst h
    refine Or.inr ⟨?_, rfl⟩
    cases r with
    | arr xs => exact absurd rfl (hnot xs xs rfl)
    | _ => rfl

theorem sameRails_arr {key0 key1 : String} {xs ys : List Json} :
    SameRails key0 key1 (.arr xs) (.arr ys) <->
      List.Forall₂ (SameRail key0 key1) xs ys := Iff.rfl

theorem sameRails_of_not_isArray {key0 key1 : String} {r : Json}
    (h : r.isArray = false) : SameRails key0 key1 r r := by
  cases r with
  | arr xs => cases h
  | _ => rfl

theorem swapEnds_of_not_isArray {r : Json} (h : r.isArray = false) : swapEnds r = r := by
  cases r with
  | arr xs => cases h
  | _ => rfl

theorem exchanged_swapEnds {r : Json} (h : OrderedRails r) : Exchanged r (swapEnds r) := by
  cases hr : r.isArray with
  | false =>
      rw [swapEnds_of_not_isArray hr]
      exact sameRails_of_not_isArray hr
  | true =>
      cases r with
      | arr items =>
          apply sameRails_arr.mpr
          rw [List.forall₂_map_right_iff, List.forall₂_same]
          exact fun rail hrail => sameRail_swapRail (h items rfl rail hrail)
      | _ => cases hr

theorem Exchanged.symm {r r' : Json} (h : Exchanged r r') : Exchanged r' r := by
  rcases SameRails.cases h with ⟨xs, ys, rfl, rfl, hall⟩ | ⟨hnot, rfl⟩
  · exact sameRails_arr.mpr (hall.flip.imp (fun _ _ => SameRail.symm))
  · exact h

theorem Exchanged.trans {a b c : Json} (hab : Exchanged a b) (hbc : Exchanged b c) :
    Kept a c := by
  rcases SameRails.cases hab with ⟨xs, ys, rfl, rfl, hall⟩ | ⟨hnot, rfl⟩
  · rcases SameRails.cases hbc with ⟨ys', zs, heq, rfl, hall'⟩ | ⟨hnot, _⟩
    · injection heq with heq
      subst heq
      apply sameRails_arr.mpr
      clear hab hbc
      induction hall generalizing zs with
      | nil =>
          cases hall'
          exact List.Forall₂.nil
      | cons hxy _ ih =>
          cases hall' with
          | cons hyz hrest => exact List.Forall₂.cons (hxy.trans hyz) (ih _ hrest)
    · cases hnot
  · rcases SameRails.cases hbc with ⟨ys', zs, rfl, _, _⟩ | ⟨_, rfl⟩
    · cases hnot
    · exact sameRails_of_not_isArray hnot

theorem Kept.refl {r : Json} (h : OrderedRails r) : Kept r r :=
  (exchanged_swapEnds h).trans (exchanged_swapEnds h).symm

theorem bothEnds_of_sameRail {rail rail' : Json} (h : BothEnds rail)
    (hsame : SameRail "node-1" "node-0" rail rail') : BothEnds rail' := by
  rcases h with ⟨hobj, ⟨v0, hv0, hne0⟩, ⟨v1, hv1, hne1⟩⟩
  unfold SameRail at hsame
  rw [if_pos hobj] at hsame
  rcases hsame with ⟨hobj', hend0, hend1, _⟩
  have h0 : v0 = (rail'.get? "node-1").getD .null := by
    rw [← show endOf rail "node-0" = v0 by rw [endOf, hv0, Option.getD_some]]
    exact hend0
  have h1 : v1 = (rail'.get? "node-0").getD .null := by
    rw [← show endOf rail "node-1" = v1 by rw [endOf, hv1, Option.getD_some]]
    exact hend1
  exact ⟨hobj', ⟨v1, eq_some_of_getD h1 hne1, hne1⟩, ⟨v0, eq_some_of_getD h0 hne0, hne0⟩⟩

section Rails

variable {r r' : Json} (h : OrderedRails r) (h' : OrderedRails r') (hends : Railed r)
include h h' hends

/-- What a list of rails with both ends determines, rail by rail. -/
theorem forall_rails {xs ys : List Json} (hr : r = .arr xs) (hr' : r' = .arr ys)
    {f : Json -> Json} {R : Json -> Json -> Prop} (hall : List.Forall₂ R xs ys)
    (hf : forall x y, Ordered x -> Ordered y -> BothEnds x -> R x y -> f x = y) :
    xs.map f = ys := by
  have hx := h xs hr
  have hy := h' ys hr'
  have hb := hends xs hr
  clear hr hr'
  induction hall with
  | nil => rfl
  | cons hxy _ ih =>
      rw [List.map_cons, hf _ _ (hx _ List.mem_cons_self) (hy _ List.mem_cons_self)
        (hb _ List.mem_cons_self) hxy]
      rw [ih (fun x hmem => hx x (List.mem_cons_of_mem _ hmem))
        (fun y hmem => hy y (List.mem_cons_of_mem _ hmem))
        (fun x hmem => hb x (List.mem_cons_of_mem _ hmem))]

theorem swapEnds_eq (hsame : Exchanged r r') : swapEnds r = r' := by
  rcases SameRails.cases hsame with ⟨xs, ys, rfl, rfl, hall⟩ | ⟨hnot, rfl⟩
  · exact congrArg Json.arr (forall_rails h h' hends rfl rfl hall
      (fun x y hx hy hb => swapRail_eq hx hy hb))
  · exact swapEnds_of_not_isArray hnot

theorem eq_of_kept (hsame : Kept r r') : r = r' := by
  rcases SameRails.cases hsame with ⟨xs, ys, rfl, rfl, hall⟩ | ⟨hnot, heq⟩
  · have hmap := forall_rails h h' hends rfl rfl hall (f := id)
      (fun x y hx hy hb => eq_of_sameRail hx hy hb)
    rw [List.map_id] at hmap
    rw [hmap]
  · exact heq

omit h h' in
theorem Exchanged.railed (hsame : Exchanged r r') : Railed r' := by
  rcases SameRails.cases hsame with ⟨xs, ys, rfl, rfl, hall⟩ | ⟨hnot, rfl⟩
  · intro items heq rail hrail
    injection heq with heq
    subst heq
    rcases List.mem_iff_getElem.mp hrail with ⟨i, hi, rfl⟩
    have hlen := hall.length_eq
    exact bothEnds_of_sameRail (hends xs rfl _ (List.getElem_mem (by omega)))
      (List.forall₂_iff_get.mp hall |>.2 i (by omega) hi)
  · exact hends

end Rails

/-!
## Symmetric and faithful
-/

section Text

variable {dump : Json -> String}

theorem structural_inj (hdump : Function.Injective dump) {lo hi lo' hi' : String}
    {c r c' r' : Json} (h : structural dump lo hi c r = structural dump lo' hi' c' r') :
    lo = lo' ∧ hi = hi' ∧ c = c' ∧ r = r' := by
  have hdoc := hdump h
  simp only [Json.obj.injEq, List.cons.injEq, Prod.mk.injEq, Json.arr.injEq,
    Json.str.injEq, true_and, and_true] at hdoc
  exact ⟨hdoc.2.1.1, hdoc.2.1.2, hdoc.1, hdoc.2.2⟩

/-- The hashed text is that of one of the two orientations. -/
theorem pairText_cases (id0 id1 : String) (pair : Json) :
    exists flip : Bool,
      pairText dump id0 id1 pair =
        structural dump (min id0 id1) (max id0 id1) (linkClassOf pair)
          (if flip then swapEnds (railsOf pair) else railsOf pair) ∧
      (id0 ≠ id1 -> flip = decide (id1 < id0)) := by
  unfold pairText
  by_cases hne : id0 ≠ id1
  · refine ⟨decide (id1 < id0), ?_, fun _ => rfl⟩
    rw [if_pos hne]
    simp
  · rw [if_neg hne]
    rcases min_choice
        (structural dump (min id0 id1) (max id0 id1) (linkClassOf pair) (railsOf pair))
        (structural dump (min id0 id1) (max id0 id1) (linkClassOf pair)
          (swapEnds (railsOf pair))) with hmin | hmin
    · exact ⟨false, hmin, fun h => absurd h hne⟩
    · exact ⟨true, hmin, fun h => absurd h hne⟩

theorem ids_of_min_max {a b a' b' : String} (hmin : min a b = min a' b')
    (hmax : max a b = max a' b') : (a = a' ∧ b = b') ∨ (a = b' ∧ b = a') := by
  rcases le_total a b with hab | hab
  · rw [min_eq_left hab, max_eq_right hab] at *
    rcases le_total a' b' with h' | h'
    · rw [min_eq_left h'] at hmin
      rw [max_eq_right h'] at hmax
      exact Or.inl ⟨hmin, hmax⟩
    · rw [min_eq_right h'] at hmin
      rw [max_eq_left h'] at hmax
      exact Or.inr ⟨hmin, hmax⟩
  · rw [min_eq_right hab, max_eq_left hab] at *
    rcases le_total a' b' with h' | h'
    · rw [min_eq_left h'] at hmin
      rw [max_eq_right h'] at hmax
      exact Or.inr ⟨hmax, hmin⟩
    · rw [min_eq_right h'] at hmin
      rw [max_eq_left h'] at hmax
      exact Or.inl ⟨hmax, hmin⟩

/-- Two orientations that give the same rails, by whether they are the same. -/
theorem rails_of_oriented {r r' : Json} (h : OrderedRails r) (h' : OrderedRails r')
    {flip flip' : Bool}
    (heq : (if flip then swapEnds r else r) = if flip' then swapEnds r' else r') :
    if flip = flip' then Kept r r' else Exchanged r r' := by
  have hr := exchanged_swapEnds h
  have hr' := exchanged_swapEnds h'
  cases flip with
  | false =>
      cases flip' with
      | false =>
          rw [if_pos rfl]
          have hrr : r = r' := heq
          rw [← hrr]
          exact Kept.refl h
      | true =>
          rw [if_neg (by decide)]
          have hrr : r = swapEnds r' := heq
          rw [hrr]
          exact hr'.symm
  | true =>
      cases flip' with
      | false =>
          rw [if_neg (by decide)]
          have hrr : swapEnds r = r' := heq
          rw [← hrr]
          exact hr
      | true =>
          rw [if_pos rfl]
          have hrr : swapEnds r = swapEnds r' := heq
          rw [hrr] at hr
          exact hr.trans hr'.symm

/-- Equal texts come from the same nodes, link class and rails. -/
theorem of_pairText_eq (hdump : Function.Injective dump) {a b a' b' : String}
    {p p' : PairDocument}
    (heq : pairText dump a b p.json = pairText dump a' b' p'.json) :
    p.linkClass = p'.linkClass ∧
      ((a = a' ∧ b = b' ∧ Kept p.rails p'.rails) ∨
        (a = b' ∧ b = a' ∧ Exchanged p.rails p'.rails)) := by
  rcases @pairText_cases dump a b p.json with ⟨flip, htext, hflip⟩
  rcases @pairText_cases dump a' b' p'.json with ⟨flip', htext', hflip'⟩
  rw [htext, htext'] at heq
  rcases structural_inj hdump heq with ⟨hlo, hhi, hclass, hrails⟩
  refine ⟨hclass, ?_⟩
  have horiented := rails_of_oriented p.ordered p'.ordered hrails
  by_cases hsame : a = b
  · -- Equal ids: both orientations of the other input name the same nodes.
    subst hsame
    rw [min_self] at hlo
    rw [max_self] at hhi
    have ha' : a = a' ∧ a = b' := by
      have hle : max a' b' ≤ min a' b' := by rw [← hlo, ← hhi]
      have hab : a' = b' :=
        le_antisymm ((le_max_left _ _).trans (hle.trans (min_le_right _ _)))
          ((le_max_right _ _).trans (hle.trans (min_le_left _ _)))
      rw [← hab, min_self] at hlo
      exact ⟨hlo, hlo.trans hab⟩
    split_ifs at horiented with hff
    · exact Or.inl ⟨ha'.1, ha'.2, horiented⟩
    · exact Or.inr ⟨ha'.2, ha'.1, horiented⟩
  · rcases ids_of_min_max hlo hhi with ⟨rfl, rfl⟩ | ⟨rfl, rfl⟩
    · rw [hflip hsame, hflip' hsame, if_pos rfl] at horiented
      exact Or.inl ⟨rfl, rfl, horiented⟩
    · rw [hflip hsame, hflip' (Ne.symm hsame), if_neg] at horiented
      · exact Or.inr ⟨rfl, rfl, horiented⟩
      · rw [decide_eq_decide]
        intro hiff
        rcases lt_or_gt_of_ne hsame with hlt | hgt
        · exact lt_asymm hlt (hiff.mpr hlt)
        · exact lt_asymm hgt (hiff.mp hgt)

/-- Naming the nodes the other way, with the ends of every rail exchanged. -/
theorem pairText_swap (a b : String) {p p' : PairDocument} (hends : Railed p.rails)
    (hclass : p.linkClass = p'.linkClass) (hrails : Exchanged p.rails p'.rails) :
    pairText dump a b p.json = pairText dump b a p'.json := by
  have hto : swapEnds (railsOf p.json) = railsOf p'.json :=
    swapEnds_eq p.ordered p'.ordered hends hrails
  have hback : swapEnds (railsOf p'.json) = railsOf p.json :=
    swapEnds_eq p'.ordered p.ordered (hrails.railed hends) hrails.symm
  have hclass' : linkClassOf p.json = linkClassOf p'.json := hclass
  unfold pairText
  simp only
  rw [hto, hback, hclass', min_comm b a, max_comm b a]
  by_cases hsame : a = b
  · rw [if_neg (not_not.mpr hsame), if_neg (not_not.mpr hsame.symm), min_comm]
  · rw [if_pos hsame, if_pos (Ne.symm hsame)]
    rcases lt_or_gt_of_ne hsame with hlt | hgt
    · rw [if_neg (lt_asymm hlt), if_pos hlt]
    · rw [if_pos hgt, if_neg (lt_asymm hgt)]

/--
The id does not depend on which node is named first, and equal texts are hashed
only for the same unordered pair of nodes, link class and rails, the ends of each
rail with their nodes.  Rails with both ends there are then the same documents, and
no other field of a pair document is looked at.
-/
theorem pairId_symmetric_faithful (hdump : Function.Injective dump)
    (sha256Hex : String -> String) :
    (forall a b (p p' : PairDocument), Railed p.rails -> p.linkClass = p'.linkClass ->
      Exchanged p.rails p'.rails ->
      pairId dump sha256Hex a b p.json = pairId dump sha256Hex b a p'.json) ∧
    (forall a b a' b' (p p' : PairDocument),
      pairText dump a b p.json = pairText dump a' b' p'.json ->
      p.linkClass = p'.linkClass ∧
        ((a = a' ∧ b = b' ∧ Kept p.rails p'.rails) ∨
          (a = b' ∧ b = a' ∧ Exchanged p.rails p'.rails))) ∧
    (forall p p' : PairDocument, Railed p.rails -> Kept p.rails p'.rails ->
      p.rails = p'.rails) ∧
    forall a b (p p' : PairDocument), p.linkClass = p'.linkClass -> p.rails = p'.rails ->
      pairId dump sha256Hex a b p.json = pairId dump sha256Hex a b p'.json := by
  refine ⟨?_, ?_, ?_, ?_⟩
  · intro a b p p' hends hclass hrails
    unfold pairId
    rw [pairText_swap a b hends hclass hrails]
  · intro a b a' b' p p' heq
    exact of_pairText_eq hdump heq
  · intro p p' hends hkept
    exact eq_of_kept p.ordered p'.ordered hends hkept
  · intro a b p p' hclass hrails
    have hclass' : linkClassOf p.json = linkClassOf p'.json := hclass
    have hrails' : railsOf p.json = railsOf p'.json := hrails
    unfold pairId pairText
    rw [hclass', hrails']

/-- One rail between the given NICs. -/
def oneRail (nic0 nic1 : Int) : PairDocument where
  json := .obj [("link_class", .str "infiniband"),
    ("rails", .arr [.obj [("node-0", .obj [("nic_index", .int nic0)]),
      ("node-1", .obj [("nic_index", .int nic1)])]])]
  ordered := by
    intro items heq rail hrail fields hfields
    have hitems : items = [.obj [("node-0", .obj [("nic_index", .int nic0)]),
      ("node-1", .obj [("nic_index", .int nic1)])]] := (Json.arr.inj heq).symm
    rw [hitems, List.mem_singleton, hfields] at hrail
    rw [Json.obj.inj hrail, List.pairwise_pair]
    have hlt : "node-0".toList < "node-1".toList := by decide
    exact String.lt_iff_toList_lt.mpr hlt

theorem oneRail_railed (nic0 nic1 : Int) : Railed (oneRail nic0 nic1).rails := by
  intro items heq rail hrail
  have hitems : items = [.obj [("node-0", .obj [("nic_index", .int nic0)]),
    ("node-1", .obj [("nic_index", .int nic1)])]] := (Json.arr.inj heq).symm
  rw [hitems, List.mem_singleton] at hrail
  subst hrail
  exact ⟨rfl, ⟨_, rfl, Json.noConfusion⟩, ⟨_, rfl, Json.noConfusion⟩⟩

theorem oneRail_exchanged (nic0 nic1 : Int) :
    Exchanged (oneRail nic0 nic1).rails (oneRail nic1 nic0).rails := by
  refine List.Forall₂.cons ⟨rfl, rfl, rfl, ?_⟩ List.Forall₂.nil
  intro k h0 h1
  simp [get?_obj, OrdMap.lookup, Ne.symm h0, Ne.symm h1]

theorem pairId_oneRail :
    pairId Compact.dump id "topo1:sha256:aa" "topo1:sha256:bb" (oneRail 0 1).json =
      pairId Compact.dump id "topo1:sha256:bb" "topo1:sha256:aa" (oneRail 1 0).json ∧
    pairText Compact.dump "topo1:sha256:aa" "topo1:sha256:bb" (oneRail 0 1).json ≠
      pairText Compact.dump "topo1:sha256:aa" "topo1:sha256:cc" (oneRail 0 1).json := by
  have hspec := pairId_symmetric_faithful Compact.dump_injective id
  refine ⟨hspec.1 _ _ _ _ (oneRail_railed 0 1) rfl (oneRail_exchanged 0 1), ?_⟩
  intro heq
  rcases (hspec.2.1 _ _ _ _ _ _ heq).2 with ⟨_, hid, _⟩ | ⟨hid, _, _⟩
  · exact absurd hid (by decide)
  · exact absurd hid (by decide)

end Text

end Identity
end Topology
end Ostia

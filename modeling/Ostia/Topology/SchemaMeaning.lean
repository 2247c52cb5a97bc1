import Mathlib.Algebra.Order.Ring.Rat
import Mathlib.Tactic.NormNum
import Ostia.Topology.Schema

/-!
# What a schema means

The meaning of the keywords, apart from how they are checked: a value is valid when every
keyword holds of it, and a oneOf holds when exactly one of its branches does.

Integers are compared with a bound as doubles, which changes nothing as long as the bound has
less than 54 bits.  With the numbers of const and enum they are compared by the JSON library,
which does so by their value as long as both are signed integers, or both unsigned ones.
-/

namespace Ostia
namespace Topology

open Foundation

namespace Schema

/-!
## Equality of values
-/

mutual

/-- Two values are the same: numbers by their value, arrays element by element, objects member
by member in the order of their keys. -/
inductive Equal : Json -> Json -> Prop
  | null : Equal .null .null
  | bool (b : Bool) : Equal (.bool b) (.bool b)
  | str (s : String) : Equal (.str s) (.str s)
  | number {a b : Json} {x : Rat} (left : number? a = some x) (right : number? b = some x) :
      Equal a b
  | arr {xs ys : List Json} (items : EqualItems xs ys) : Equal (.arr xs) (.arr ys)
  | obj {fs gs : List (String × Json)} (fields : EqualFields fs gs) : Equal (.obj fs) (.obj gs)

inductive EqualItems : List Json -> List Json -> Prop
  | nil : EqualItems [] []
  | cons {x y : Json} {xs ys : List Json} (head : Equal x y) (tail : EqualItems xs ys) :
      EqualItems (x :: xs) (y :: ys)

inductive EqualFields : List (String × Json) -> List (String × Json) -> Prop
  | nil : EqualFields [] []
  | cons (key : String) {x y : Json} {fs gs : List (String × Json)} (head : Equal x y)
      (tail : EqualFields fs gs) : EqualFields ((key, x) :: fs) ((key, y) :: gs)

end

mutual

/-- The numbers of a document. -/
def numbers : Json -> List Json
  | .int n => [.int n]
  | .float q => [.float q]
  | .arr xs => numbersItems xs
  | .obj fields => numbersFields fields
  | _ => []

def numbersItems : List Json -> List Json
  | [] => []
  | x :: xs => numbers x ++ numbersItems xs

def numbersFields : List (String × Json) -> List Json
  | [] => []
  | (_, value) :: fields => numbers value ++ numbersFields fields

end

theorem numbers_item {x : Json} {xs : List Json} (h : x ∈ xs) :
    numbers x ⊆ numbersItems xs := by
  induction xs with
  | nil => cases h
  | cons y xs ih =>
      rw [numbersItems]
      rcases List.mem_cons.mp h with rfl | h
      · exact List.subset_append_left _ _
      · exact List.Subset.trans (ih h) (List.subset_append_right _ _)

theorem numbers_field {key : String} {value : Json} {fields : List (String × Json)}
    (h : (key, value) ∈ fields) : numbers value ⊆ numbersFields fields := by
  induction fields with
  | nil => cases h
  | cons field fields ih =>
      obtain ⟨key', value'⟩ := field
      rw [numbersFields]
      rcases List.mem_cons.mp h with heq | h
      · cases heq
        exact List.subset_append_left _ _
      · exact List.Subset.trans (ih h) (List.subset_append_right _ _)

/-- Numbers that fit in one of the types in which the library compares them. -/
def Comparable : Json -> Json -> Prop
  | .int a, .int b => -2 ^ 63 ≤ a ∧ a < 2 ^ 63 ∧ -2 ^ 63 ≤ b ∧ b < 2 ^ 63 ∨
      0 ≤ a ∧ a < 2 ^ 64 ∧ 0 ≤ b ∧ b < 2 ^ 64
  | .int a, .float _ => Small a
  | .float _, .int b => Small b
  | _, _ => True

theorem Comparable.symm {a b : Json} (h : Comparable a b) : Comparable b a := by
  unfold Comparable at h ⊢
  cases a with
  | int m =>
      cases b with
      | int n =>
          rcases h with ⟨hm, hm', hn, hn'⟩ | ⟨hm, hm', hn, hn'⟩
          · exact Or.inl ⟨hn, hn', hm, hm'⟩
          · exact Or.inr ⟨hn, hn', hm, hm'⟩
      | _ => exact h
  | _ => cases b <;> exact h

/-- The library compares numbers of one type by their value. -/
def ByValue (sameNumber : Json -> Json -> Bool) : Prop :=
  forall (a b : Json) (x y : Rat), Comparable a b -> number? a = some x -> number? b = some y ->
    (sameNumber a b = true <-> x = y)

/-- All numbers of two lists are comparable. -/
def AllComparable (as bs : List Json) : Prop :=
  forall a, a ∈ as -> forall b, b ∈ bs -> Comparable a b

theorem AllComparable.mono {as as' bs bs' : List Json} (h : AllComparable as bs) (ha : as' ⊆ as)
    (hb : bs' ⊆ bs) : AllComparable as' bs' :=
  fun a hmem b hmem' => h a (ha hmem) b (hb hmem')

theorem AllComparable.symm {as bs : List Json} (h : AllComparable as bs) : AllComparable bs as :=
  fun b hb a ha => (h a ha b hb).symm

theorem number?_isSome {a : Json} : (number? a).isSome = a.isNumber := by
  cases a <;> rfl

theorem mem_numbers_self {a : Json} {x : Rat} (h : number? a = some x) : a ∈ numbers a := by
  cases a with
  | int n =>
      rw [numbers]
      exact List.mem_singleton_self _
  | float q =>
      rw [numbers]
      exact List.mem_singleton_self _
  | _ => cases h

/-- A number is the same as what has its value. -/
theorem sameNumber_iff {env : Env} (henv : ByValue env.sameNumber) {a b : Json}
    (hab : AllComparable (numbers a) (numbers b)) (ha : (number? a).isSome = true) :
    (a.isNumber && b.isNumber && env.sameNumber a b) = true <-> Equal a b := by
  rcases Option.isSome_iff_exists.mp ha with ⟨x, hx⟩
  rw [number?_isSome] at ha
  rw [ha, Bool.true_and, Bool.and_eq_true, ← number?_isSome]
  constructor
  · rintro ⟨hb, hsame⟩
    rcases Option.isSome_iff_exists.mp hb with ⟨y, hy⟩
    have hcompare := hab a (mem_numbers_self hx) b (mem_numbers_self hy)
    have heq := (henv a b x y hcompare hx hy).mp hsame
    exact Equal.number hx (heq ▸ hy)
  · intro h
    cases h with
    | number left right =>
        have hcompare := hab a (mem_numbers_self left) b (mem_numbers_self right)
        rw [right]
        exact ⟨rfl, (henv a b _ _ hcompare left right).mpr rfl⟩
    | _ => cases hx

mutual

theorem same_iff {env : Env} (henv : ByValue env.sameNumber) (a b : Json)
    (hab : AllComparable (numbers a) (numbers b)) :
    same env a b = true <-> Equal a b := by
  cases a with
  | null =>
      cases b with
      | null => simp [same, Equal.null]
      | _ =>
          simp only [same, Json.isNumber, Bool.false_and, Bool.false_eq_true, false_iff]
          intro h
          cases h with
          | number ha hb => cases ha
  | bool x =>
      cases b with
      | bool y =>
          rw [same, beq_iff_eq]
          constructor
          · intro h
            rw [h]
            exact Equal.bool y
          · intro h
            cases h with
            | bool => rfl
            | number left _ => cases left
      | _ =>
          simp only [same, Json.isNumber, Bool.false_and, Bool.false_eq_true, false_iff]
          intro h
          cases h with
          | number ha hb => cases ha
  | str x =>
      cases b with
      | str y =>
          rw [same, beq_iff_eq]
          constructor
          · intro h
            rw [h]
            exact Equal.str y
          · intro h
            cases h with
            | str => rfl
            | number left _ => cases left
      | _ =>
          simp only [same, Json.isNumber, Bool.false_and, Bool.false_eq_true, false_iff]
          intro h
          cases h with
          | number ha hb => cases ha
  | int x =>
      have hnumber := sameNumber_iff henv hab rfl
      cases b <;> rw [same] <;> first | exact hnumber | simp
  | float x =>
      have hnumber := sameNumber_iff henv hab rfl
      cases b <;> rw [same] <;> first | exact hnumber | simp
  | arr xs =>
      cases b with
      | arr ys =>
          rw [numbers, numbers] at hab
          rw [same, sameItems_iff henv xs ys hab]
          constructor
          · exact Equal.arr
          · intro h
            cases h with
            | arr items => exact items
            | number left _ => cases left
      | _ =>
          simp only [same, Json.isNumber, Bool.false_and, Bool.false_eq_true, false_iff]
          intro h
          cases h with
          | number ha hb => cases ha
  | obj fs =>
      cases b with
      | obj gs =>
          rw [numbers, numbers] at hab
          rw [same, sameFields_iff henv fs gs hab]
          constructor
          · exact Equal.obj
          · intro h
            cases h with
            | obj fields => exact fields
            | number left _ => cases left
      | _ =>
          simp only [same, Json.isNumber, Bool.false_and, Bool.false_eq_true, false_iff]
          intro h
          cases h with
          | number ha hb => cases ha

theorem sameItems_iff {env : Env} (henv : ByValue env.sameNumber) (xs ys : List Json)
    (hxs : AllComparable (numbersItems xs) (numbersItems ys)) :
    sameItems env xs ys = true <-> EqualItems xs ys := by
  cases xs with
  | nil =>
      cases ys with
      | nil => simp [sameItems, EqualItems.nil]
      | cons y ys =>
          simp only [sameItems, Bool.false_eq_true, false_iff]
          intro h
          cases h
  | cons x xs =>
      cases ys with
      | nil =>
          simp only [sameItems, Bool.false_eq_true, false_iff]
          intro h
          cases h
      | cons y ys =>
          rw [numbersItems, numbersItems] at hxs
          have hhead := hxs.mono (List.subset_append_left _ _) (List.subset_append_left _ _)
          have htail := hxs.mono (List.subset_append_right _ _) (List.subset_append_right _ _)
          rw [sameItems, Bool.and_eq_true, same_iff henv x y hhead, sameItems_iff henv xs ys htail]
          constructor
          · rintro ⟨head, tail⟩
            exact EqualItems.cons head tail
          · intro h
            cases h with
            | cons head tail => exact ⟨head, tail⟩

theorem sameFields_iff {env : Env} (henv : ByValue env.sameNumber)
    (fs gs : List (String × Json))
    (hfs : AllComparable (numbersFields fs) (numbersFields gs)) :
    sameFields env fs gs = true <-> EqualFields fs gs := by
  cases fs with
  | nil =>
      cases gs with
      | nil => simp [sameFields, EqualFields.nil]
      | cons g gs =>
          simp only [sameFields, Bool.false_eq_true, false_iff]
          intro h
          cases h
  | cons f fs =>
      obtain ⟨key, x⟩ := f
      cases gs with
      | nil =>
          simp only [sameFields, Bool.false_eq_true, false_iff]
          intro h
          cases h
      | cons g gs =>
          obtain ⟨key', y⟩ := g
          rw [numbersFields, numbersFields] at hfs
          have hhead := hfs.mono (List.subset_append_left _ _) (List.subset_append_left _ _)
          have htail := hfs.mono (List.subset_append_right _ _) (List.subset_append_right _ _)
          rw [sameFields, Bool.and_eq_true, Bool.and_eq_true, beq_iff_eq, same_iff henv x y hhead,
            sameFields_iff henv fs gs htail]
          constructor
          · rintro ⟨⟨rfl, head⟩, tail⟩
            exact EqualFields.cons key head tail
          · intro h
            cases h with
            | cons _ head tail => exact ⟨⟨rfl, head⟩, tail⟩

end

/-!
## The keywords
-/

def TypeSpec.names : TypeSpec -> List String
  | .one name => [name]
  | .many names => names

/-- The types of values by their names; an integer is a number without a fraction. -/
inductive HasType : Json -> String -> Prop
  | object (fields : List (String × Json)) : HasType (.obj fields) "object"
  | array (items : List Json) : HasType (.arr items) "array"
  | string (s : String) : HasType (.str s) "string"
  | integer {doc : Json} {n : Int} (value : number? doc = some n) : HasType doc "integer"
  | number {doc : Json} {x : Rat} (value : number? doc = some x) : HasType doc "number"
  | boolean (b : Bool) : HasType (.bool b) "boolean"
  | null : HasType .null "null"

/-- Exactly one of the statements holds. -/
def ExactlyOne (statements : List Prop) : Prop :=
  exists i : Fin statements.length, forall j, statements.get j <-> j = i

mutual

/-- A value is valid when each keyword of the schema holds of it. -/
def Valid (env : Env) : Schema -> Json -> Prop
  | ⟨type, const, enum, oneOf, pattern, minimum, maximum, properties, required,
      additionalProperties, items⟩, doc =>
      (forall t, type = some t -> exists name, name ∈ TypeSpec.names t ∧ HasType doc name) ∧
      (forall c, const = some c -> Equal doc c) ∧
      (forall values, enum = some values -> exists v, v ∈ values ∧ Equal v doc) ∧
      ValidOneOf env oneOf doc ∧
      (forall p s, pattern = some p -> doc = .str s -> env.regexSearch p s = true) ∧
      (forall m x, minimum = some m -> number? doc = some x -> m ≤ x) ∧
      (forall m x, maximum = some m -> number? doc = some x -> x ≤ m) ∧
      (forall fields, doc = .obj fields ->
        (forall name, name ∈ required -> name ∈ fields.map Prod.fst) ∧
        forall key value, (key, value) ∈ fields ->
          ValidMember env properties additionalProperties key value) ∧
      ValidItems env items doc

def ValidOneOf (env : Env) : Option (List Schema) -> Json -> Prop
  | none, _ => True
  | some branches, doc => ExactlyOne (validBranches env branches doc)

/-- For each branch, that the value is valid for it. -/
def validBranches (env : Env) : List Schema -> Json -> List Prop
  | [], _ => []
  | branch :: rest, doc => Valid env branch doc :: validBranches env rest doc

/-- A member obeys the schema of its property; a member without one must be allowed. -/
def ValidMember (env : Env) : List (String × Schema) -> Bool -> String -> Json -> Prop
  | [], additionalProperties, _, _ => additionalProperties = true
  | (name, schema) :: rest, additionalProperties, key, value =>
      if name = key then Valid env schema value
      else ValidMember env rest additionalProperties key value

def ValidItems (env : Env) : Option Schema -> Json -> Prop
  | none, _ => True
  | some schema, doc => forall xs, doc = .arr xs -> forall x, x ∈ xs -> Valid env schema x

end

/-!
## The supported schemas, and documents of integers
-/

mutual

/-- The bounds are small, and each oneOf has a branch. -/
def Supported : Schema -> Prop
  | ⟨_, _, _, oneOf, _, minimum, maximum, properties, _, _, items⟩ =>
      (forall m, minimum = some m -> Small m) ∧ (forall m, maximum = some m -> Small m) ∧
      SupportedOneOf oneOf ∧ SupportedProperties properties ∧ SupportedItems items

def SupportedOneOf : Option (List Schema) -> Prop
  | none => True
  | some branches => branches ≠ [] ∧ SupportedBranches branches

def SupportedBranches : List Schema -> Prop
  | [] => True
  | branch :: rest => Supported branch ∧ SupportedBranches rest

def SupportedProperties : List (String × Schema) -> Prop
  | [] => True
  | (_, schema) :: rest => Supported schema ∧ SupportedProperties rest

def SupportedItems : Option Schema -> Prop
  | none => True
  | some schema => Supported schema

end

mutual

/-- The numbers that const and enum of a schema hold. -/
def constants : Schema -> List Json
  | ⟨_, const, enum, oneOf, _, _, _, properties, _, _, items⟩ =>
      const.toList.flatMap numbers ++ numbersItems (enum.getD []) ++ constantsOneOf oneOf ++
        constantsProperties properties ++ constantsItems items

def constantsOneOf : Option (List Schema) -> List Json
  | none => []
  | some branches => constantsBranches branches

def constantsBranches : List Schema -> List Json
  | [] => []
  | branch :: rest => constants branch ++ constantsBranches rest

def constantsProperties : List (String × Schema) -> List Json
  | [] => []
  | (_, schema) :: rest => constants schema ++ constantsProperties rest

def constantsItems : Option Schema -> List Json
  | none => []
  | some schema => constants schema

end

mutual

/-- All numbers of a document are integers. -/
def Integral : Json -> Prop
  | .float _ => False
  | .arr xs => IntegralItems xs
  | .obj fields => IntegralFields fields
  | _ => True

def IntegralItems : List Json -> Prop
  | [] => True
  | x :: xs => Integral x ∧ IntegralItems xs

def IntegralFields : List (String × Json) -> Prop
  | [] => True
  | (_, value) :: fields => Integral value ∧ IntegralFields fields

end

mutual

/-- No number of a document that is written with a fraction part is a whole one. -/
def Proper : Json -> Prop
  | .float q => forall n : Int, q ≠ n
  | .arr xs => ProperItems xs
  | .obj fields => ProperFields fields
  | _ => True

def ProperItems : List Json -> Prop
  | [] => True
  | x :: xs => Proper x ∧ ProperItems xs

def ProperFields : List (String × Json) -> Prop
  | [] => True
  | (_, value) :: fields => Proper value ∧ ProperFields fields

end

mutual

theorem proper_of_integral : forall doc : Json, Integral doc -> Proper doc
  | .null, _ => trivial
  | .bool _, _ => trivial
  | .int _, _ => trivial
  | .float _, h => absurd h id
  | .str _, _ => trivial
  | .arr xs, h => properItems_of_integral xs h
  | .obj fields, h => properFields_of_integral fields h

theorem properItems_of_integral : forall xs : List Json, IntegralItems xs -> ProperItems xs
  | [], _ => trivial
  | x :: xs, h => ⟨proper_of_integral x h.1, properItems_of_integral xs h.2⟩

theorem properFields_of_integral : forall fields : List (String × Json),
    IntegralFields fields -> ProperFields fields
  | [], _ => trivial
  | (_, value) :: fields, h => ⟨proper_of_integral value h.1, properFields_of_integral fields h.2⟩

end

theorem properItems_iff {xs : List Json} :
    ProperItems xs <-> forall x, x ∈ xs -> Proper x := by
  induction xs with
  | nil => simp [ProperItems]
  | cons x xs ih => rw [ProperItems, ih, List.forall_mem_cons]

theorem properFields_iff {fields : List (String × Json)} :
    ProperFields fields <-> forall key value, (key, value) ∈ fields -> Proper value := by
  induction fields with
  | nil => simp [ProperFields]
  | cons e fields ih =>
      obtain ⟨key, value⟩ := e
      rw [ProperFields, ih]
      constructor
      · rintro ⟨hvalue, hfields⟩ key' value' hmem
        rcases List.mem_cons.mp hmem with heq | hmem
        · cases heq
          exact hvalue
        · exact hfields key' value' hmem
      · intro h
        exact ⟨h key value List.mem_cons_self,
          fun key' value' hmem => h key' value' (List.mem_cons_of_mem _ hmem)⟩

/-!
## Each keyword
-/

theorem isNumberInteger_iff {doc : Json} (hdoc : Proper doc) :
    doc.isNumberInteger = true <-> exists n : Int, number? doc = some n := by
  cases doc with
  | float q =>
      rw [Proper] at hdoc
      simpa [Json.isNumberInteger, number?] using hdoc
  | int n => simp [Json.isNumberInteger, number?]
  | _ => simp [Json.isNumberInteger, number?]

theorem isNumber_iff {doc : Json} : doc.isNumber = true <-> exists x, number? doc = some x := by
  cases doc <;> simp [Json.isNumber, number?]

theorem hasType_iff {doc : Json} (hdoc : Proper doc) {name : String} :
    hasType doc name = true <-> HasType doc name := by
  constructor
  · intro h
    unfold hasType at h
    split_ifs at h with hobject harray hstring hinteger hnumber hboolean hnull
    · rw [hobject]
      cases doc with
      | obj fields => exact HasType.object fields
      | _ => cases h
    · rw [harray]
      cases doc with
      | arr items => exact HasType.array items
      | _ => cases h
    · rw [hstring]
      cases doc with
      | str s => exact HasType.string s
      | _ => cases h
    · rw [hinteger]
      rcases (isNumberInteger_iff hdoc).mp h with ⟨n, hn⟩
      exact HasType.integer hn
    · rw [hnumber]
      rcases isNumber_iff.mp h with ⟨x, hx⟩
      exact HasType.number hx
    · rw [hboolean]
      cases doc with
      | bool b => exact HasType.boolean b
      | _ => cases h
    · rw [hnull]
      cases doc with
      | null => exact HasType.null
      | _ => cases h
  · intro h
    cases h with
    | integer value => exact (isNumberInteger_iff hdoc).mpr ⟨_, value⟩
    | number value => exact isNumber_iff.mpr ⟨_, value⟩
    | _ => rfl

theorem admits_iff {t : TypeSpec} {doc : Json} (hdoc : Proper doc) :
    TypeSpec.admits doc t = true <-> exists name, name ∈ TypeSpec.names t ∧ HasType doc name := by
  cases t with
  | one name => simp [TypeSpec.admits, TypeSpec.names, hasType_iff hdoc]
  | many names => simp [TypeSpec.admits, TypeSpec.names, hasType_iff hdoc]

theorem constErrors_nil {env : Env} (henv : ByValue env.sameNumber) {const : Option Json}
    {doc : Json} {path : String}
    (hconst : AllComparable (numbers doc) (const.toList.flatMap numbers)) :
    constErrors env const doc path = [] <-> forall c, const = some c -> Equal doc c := by
  cases const with
  | none => simp [constErrors]
  | some c =>
      have hc : AllComparable (numbers doc) (numbers c) := by
        apply hconst.mono (List.Subset.refl _)
        simp
      simp [constErrors, ← same_iff henv doc c hc]

theorem enumErrors_nil {env : Env} (henv : ByValue env.sameNumber) {enum : Option (List Json)}
    {doc : Json} {path : String}
    (henum : AllComparable (numbers doc) (numbersItems (enum.getD []))) :
    enumErrors env enum doc path = [] <->
      forall values, enum = some values -> exists v, v ∈ values ∧ Equal v doc := by
  cases enum with
  | none => simp [enumErrors]
  | some values =>
      have hsame : forall v, v ∈ values -> (same env v doc = true <-> Equal v doc) := by
        intro v hv
        exact same_iff henv v doc (henum.mono (List.Subset.refl _) (numbers_item hv)).symm
      simp only [enumErrors, Option.some.injEq, forall_eq', ite_eq_left_iff, reduceCtorEq,
        imp_false, not_not, List.any_eq_true]
      exact exists_congr fun v => and_congr_right fun hv => hsame v hv

theorem patternErrors_nil {env : Env} {pattern : Option String} {doc : Json} {path : String} :
    patternErrors env pattern doc path = [] <->
      forall p s, pattern = some p -> doc = .str s -> env.regexSearch p s = true := by
  cases pattern with
  | none => simp [patternErrors]
  | some p => cases doc <;> simp [patternErrors]

theorem boundErrors_nil {env : Env} {minimum maximum : Option Int} {doc : Json} {path : String}
    (hmin : forall m, minimum = some m -> Small m)
    (hmax : forall m, maximum = some m -> Small m) :
    boundErrors env minimum maximum doc path = [] <->
      (forall m x, minimum = some m -> number? doc = some x -> m ≤ x) ∧
      (forall m x, maximum = some m -> number? doc = some x -> x ≤ m) := by
  cases doc with
  | int n =>
      have hlow : forall m, minimum = some m ->
          ((roundInt n : Rat) < roundInt m <-> (n : Rat) < m) := by
        intro m hm
        rw [Int.cast_lt, Int.cast_lt, roundInt_of_small (hmin m hm), roundInt_lt_iff (hmin m hm)]
      have hhigh : forall m, maximum = some m ->
          ((roundInt m : Rat) < roundInt n <-> (m : Rat) < n) := by
        intro m hm
        rw [Int.cast_lt, Int.cast_lt, roundInt_of_small (hmax m hm), lt_roundInt_iff (hmax m hm)]
      unfold boundErrors
      simp only [double?, number?, List.append_eq_nil_iff, Option.some.injEq]
      apply and_congr
      · cases minimum with
        | none => simp
        | some m => simp [hlow]
      · cases maximum with
        | none => simp
        | some m => simp [hhigh]
  | float q =>
      unfold boundErrors
      simp only [double?, number?, List.append_eq_nil_iff, Option.some.injEq]
      apply and_congr
      · cases minimum with
        | none => simp
        | some m => simp [roundInt_of_small (hmin m rfl)]
      · cases maximum with
        | none => simp
        | some m => simp [roundInt_of_small (hmax m rfl)]
  | _ => simp [boundErrors, double?, number?]

theorem contains_iff {fields : List (String × Json)} {name : String} :
    (Json.obj fields).contains name = true <-> name ∈ fields.map Prod.fst := by
  have hlookup : (Json.obj fields).contains name = (OrdMap.lookup name fields).isSome := rfl
  rw [hlookup]
  constructor
  · intro h
    rcases Option.isSome_iff_exists.mp h with ⟨value, hvalue⟩
    exact List.mem_map.mpr ⟨(name, value), OrdMap.mem_of_lookup hvalue, rfl⟩
  · intro h
    cases hfound : OrdMap.lookup name fields with
    | some value => rfl
    | none =>
        rcases List.mem_map.mp h with ⟨e, he, hname⟩
        exact absurd hname (OrdMap.lookup_ne hfound e he)

theorem requiredErrors_nil {env : Env} {required : List String} {fields : List (String × Json)}
    {path : String} : requiredErrors env required (.obj fields) path = [] <->
      forall name, name ∈ required -> name ∈ fields.map Prod.fst := by
  unfold requiredErrors
  simp only [List.flatMap_eq_nil_iff]
  refine forall_congr' fun name => forall_congr' fun _ => ?_
  rw [← contains_iff]
  split_ifs with h
  · simp [h]
  · simp [h]

/-!
## Exactly one branch
-/

theorem exactlyOne_cons {p : Prop} {ps : List Prop} :
    ExactlyOne (p :: ps) <-> (p ∧ forall q, q ∈ ps -> ¬ q) ∨ (¬ p ∧ ExactlyOne ps) := by
  constructor
  · rintro ⟨i, hi⟩
    cases i using Fin.cases with
    | zero =>
        refine Or.inl ⟨(hi 0).mpr rfl, ?_⟩
        intro q hq hholds
        rcases List.get_of_mem hq with ⟨j, rfl⟩
        exact absurd ((hi j.succ).mp hholds) (Fin.succ_ne_zero j)
    | succ i =>
        refine Or.inr ⟨fun hp => ?_, i, fun j => ?_⟩
        · exact absurd ((hi 0).mp hp) (Fin.succ_ne_zero i).symm
        · exact (hi j.succ).trans Fin.succ_inj
  · rintro (⟨hp, hnone⟩ | ⟨hp, i, hi⟩)
    · refine ⟨0, fun j => ?_⟩
      cases j using Fin.cases with
      | zero => exact iff_of_true hp rfl
      | succ j => exact iff_of_false (hnone _ (List.get_mem ps j)) (Fin.succ_ne_zero j)
    · refine ⟨i.succ, fun j => ?_⟩
      cases j using Fin.cases with
      | zero => exact iff_of_false hp (Fin.succ_ne_zero i).symm
      | succ j => exact (hi j).trans Fin.succ_inj.symm

/-- Each list of errors is empty exactly when the statement holds. -/
abbrev Tells (errors : List (List SchemaError)) (statements : List Prop) : Prop :=
  List.Forall₂ (fun e p => e = [] <-> p) errors statements

theorem Tells.countP_eq_zero {errors : List (List SchemaError)} {statements : List Prop}
    (h : Tells errors statements) :
    errors.countP List.isEmpty = 0 <-> forall q, q ∈ statements -> ¬ q := by
  induction h with
  | nil => simp
  | cons hhead _ ih =>
      rw [List.forall_mem_cons, ← ih, ← hhead, List.countP_cons]
      simp [and_comm]

/-- One branch without errors is one statement that holds. -/
theorem Tells.countP_eq_one {errors : List (List SchemaError)} {statements : List Prop}
    (h : Tells errors statements) :
    errors.countP List.isEmpty = 1 <-> ExactlyOne statements := by
  induction h with
  | nil =>
      refine iff_of_false (by simp) ?_
      rintro ⟨i, _⟩
      exact i.elim0
  | @cons e p errors statements hhead htail ih =>
      rw [exactlyOne_cons, ← hhead, ← ih, ← Tells.countP_eq_zero htail, List.countP_cons]
      by_cases he : e = []
      · simp [he]
      · simp [he]

/-- The errors of a oneOf are none exactly when one branch has none. -/
theorem oneOfErrors_nil {path : String} {branches : List (List SchemaError)}
    (hne : branches ≠ []) :
    oneOfErrors path branches = [] <-> branches.countP List.isEmpty = 1 := by
  unfold oneOfErrors
  rw [← List.countP_eq_length_filter]
  by_cases hone : branches.countP List.isEmpty = 1
  · simp [hone]
  · refine iff_of_false ?_ hone
    simp only [if_neg hone]
    split_ifs with hmany
    · simp
    · have hall : forall e, e ∈ branches -> e ≠ [] := by
        intro e he hnil
        have hpos : 0 < branches.countP List.isEmpty :=
          List.countP_pos_iff.mpr ⟨e, he, by rw [hnil]; rfl⟩
        omega
      have hfilter : branches.filter (fun e => !e.isEmpty) = branches := by
        rw [List.filter_eq_self]
        intro e he
        simpa using hall e he
      rw [hfilter]
      exact fewest_ne_nil hne hall

/-!
## Soundness and completeness
-/

/-- The numbers of each keyword are among those of the schema. -/
theorem comparable_parts {ns : List Json} {type : Option TypeSpec} {const : Option Json}
    {enum : Option (List Json)} {oneOf : Option (List Schema)} {pattern : Option String}
    {minimum maximum : Option Int} {properties : List (String × Schema)} {required : List String}
    {additionalProperties : Bool} {items : Option Schema}
    (h : AllComparable ns (constants ⟨type, const, enum, oneOf, pattern, minimum, maximum,
      properties, required, additionalProperties, items⟩)) :
    AllComparable ns (const.toList.flatMap numbers) ∧
      AllComparable ns (numbersItems (enum.getD [])) ∧ AllComparable ns (constantsOneOf oneOf) ∧
      AllComparable ns (constantsProperties properties) ∧
      AllComparable ns (constantsItems items) := by
  rw [constants] at h
  refine ⟨?_, ?_, ?_, ?_, ?_⟩
  all_goals
    refine h.mono (List.Subset.refl _) ?_
    intro b hb
    simp only [List.mem_append, hb, true_or, or_true]

mutual

/-- The check finds nothing exactly when the document is valid. -/
theorem check_nil_iff {env : Env} (henv : ByValue env.sameNumber) (schema : Schema) (doc : Json)
    (path : String) (hschema : Supported schema) (hdoc : Proper doc)
    (hnumbers : AllComparable (numbers doc) (constants schema)) :
    check env schema doc path = [] <-> Valid env schema doc := by
  obtain ⟨type, const, enum, oneOf, pattern, minimum, maximum, properties, required,
    additionalProperties, items⟩ := schema
  rw [Supported] at hschema
  rcases hschema with ⟨hmin, hmax, hone, hproperties, hitems⟩
  rcases comparable_parts hnumbers with ⟨hconst, henum, hnone, hnproperties, hnitems⟩
  rw [check, Valid]
  have htype : (type.filter fun t => !TypeSpec.admits doc t) = none <->
      forall t, type = some t -> exists name, name ∈ TypeSpec.names t ∧ HasType doc name := by
    simp [Option.filter_eq_none_iff, ← admits_iff hdoc]
  have hobject : objectErrors env (fun key value child =>
      checkProperty env properties key value child) required additionalProperties doc path = [] <->
        forall fields, doc = .obj fields ->
          (forall name, name ∈ required -> name ∈ fields.map Prod.fst) ∧
          forall key value, (key, value) ∈ fields ->
            ValidMember env properties additionalProperties key value := by
    cases doc with
    | obj fields =>
        rw [Proper, properFields_iff] at hdoc
        rw [numbers] at hnproperties
        have hmember : forall key value child, (key, value) ∈ fields ->
            ((match checkProperty env properties key value child with
              | some errors => errors
              | none => if additionalProperties then [] else [⟨child, "unexpected property"⟩]) = []
              <-> ValidMember env properties additionalProperties key value) := by
          intro key value child hmem
          rw [← checkProperty_nil_iff henv properties additionalProperties key value child
            hproperties (hdoc key value hmem)
            (hnproperties.mono (numbers_field hmem) (List.Subset.refl _))]
          cases checkProperty env properties key value child <;> rfl
        simp only [objectErrors, List.append_eq_nil_iff, requiredErrors_nil, Json.obj.injEq,
          forall_eq', List.flatMap_eq_nil_iff, Prod.forall]
        refine and_congr Iff.rfl (forall_congr' fun key => forall_congr' fun value => ?_)
        exact forall_congr' fun hmem => hmember key value _ hmem
    | _ => simp [objectErrors]
  cases hfilter : type.filter (fun t => !TypeSpec.admits doc t) with
  | some t =>
      rw [hfilter] at htype
      refine iff_of_false (by simp) fun h => ?_
      cases htype.mpr h.1
  | none =>
      simp only [List.append_eq_nil_iff]
      rw [constErrors_nil henv hconst, enumErrors_nil henv henum,
        checkOneOf_nil_iff henv oneOf doc path hone hdoc hnone, patternErrors_nil,
        boundErrors_nil hmin hmax, hobject,
        checkArray_nil_iff henv items doc path hitems hdoc hnitems]
      have hall := htype.mp hfilter
      tauto

theorem checkOneOf_nil_iff {env : Env} (henv : ByValue env.sameNumber)
    (oneOf : Option (List Schema)) (doc : Json) (path : String) (hone : SupportedOneOf oneOf)
    (hdoc : Proper doc) (hnumbers : AllComparable (numbers doc) (constantsOneOf oneOf)) :
    checkOneOf env oneOf doc path = [] <-> ValidOneOf env oneOf doc := by
  cases oneOf with
  | none => simp [checkOneOf, ValidOneOf]
  | some branches =>
      rw [SupportedOneOf] at hone
      rw [constantsOneOf] at hnumbers
      have htells := checkBranches_tells henv branches doc path hone.2 hdoc hnumbers
      have hne : checkBranches env branches doc path ≠ [] := by
        intro hnil
        have hlength := checkBranches_length env branches doc path
        rw [hnil] at hlength
        exact hone.1 (List.length_eq_zero_iff.mp hlength.symm)
      rw [checkOneOf, ValidOneOf, oneOfErrors_nil hne, htells.countP_eq_one]

theorem checkBranches_tells {env : Env} (henv : ByValue env.sameNumber) (branches : List Schema)
    (doc : Json) (path : String) (hbranches : SupportedBranches branches) (hdoc : Proper doc)
    (hnumbers : AllComparable (numbers doc) (constantsBranches branches)) :
    Tells (checkBranches env branches doc path) (validBranches env branches doc) := by
  cases branches with
  | nil =>
      rw [checkBranches, validBranches]
      exact List.Forall₂.nil
  | cons branch rest =>
      rw [SupportedBranches] at hbranches
      rw [constantsBranches] at hnumbers
      have hbranch := hnumbers.mono (List.Subset.refl _) (List.subset_append_left _ _)
      have hrest := hnumbers.mono (List.Subset.refl _) (List.subset_append_right _ _)
      rw [checkBranches, validBranches]
      exact List.Forall₂.cons (check_nil_iff henv branch doc path hbranches.1 hdoc hbranch)
        (checkBranches_tells henv rest doc path hbranches.2 hdoc hrest)

theorem checkProperty_nil_iff {env : Env} (henv : ByValue env.sameNumber)
    (properties : List (String × Schema)) (additionalProperties : Bool) (key : String)
    (value : Json) (path : String) (hproperties : SupportedProperties properties)
    (hvalue : Proper value)
    (hnumbers : AllComparable (numbers value) (constantsProperties properties)) :
    ((checkProperty env properties key value path).getD
        (if additionalProperties then [] else [⟨path, "unexpected property"⟩]) = []) <->
      ValidMember env properties additionalProperties key value := by
  cases properties with
  | nil =>
      rw [checkProperty, ValidMember]
      cases additionalProperties <;> simp
  | cons property rest =>
      obtain ⟨name, schema⟩ := property
      rw [SupportedProperties] at hproperties
      rw [constantsProperties] at hnumbers
      rw [checkProperty, ValidMember]
      by_cases hname : name = key
      · rw [if_pos hname, if_pos hname, Option.getD_some]
        exact check_nil_iff henv schema value path hproperties.1 hvalue
          (hnumbers.mono (List.Subset.refl _) (List.subset_append_left _ _))
      · rw [if_neg hname, if_neg hname]
        exact checkProperty_nil_iff henv rest additionalProperties key value path hproperties.2
          hvalue (hnumbers.mono (List.Subset.refl _) (List.subset_append_right _ _))

theorem checkArray_nil_iff {env : Env} (henv : ByValue env.sameNumber) (items : Option Schema)
    (doc : Json) (path : String) (hitems : SupportedItems items) (hdoc : Proper doc)
    (hnumbers : AllComparable (numbers doc) (constantsItems items)) :
    checkArray env items doc path = [] <-> ValidItems env items doc := by
  cases items with
  | none => simp [checkArray, ValidItems]
  | some schema =>
      rw [SupportedItems] at hitems
      cases doc with
      | arr xs =>
          rw [checkArray, ValidItems]
          rw [Proper, properItems_iff] at hdoc
          rw [numbers, constantsItems] at hnumbers
          have hitem : forall x, x ∈ xs -> AllComparable (numbers x) (constants schema) :=
            fun x hx => hnumbers.mono (numbers_item hx) (List.Subset.refl _)
          simp only [List.flatMap_eq_nil_iff, Json.arr.injEq, forall_eq']
          constructor
          · intro h x hx
            rcases List.mem_iff_getElem?.mp hx with ⟨i, hi⟩
            have hcheck := h (x, i) (List.mem_zipIdx_iff_getElem?.mpr hi)
            exact (check_nil_iff henv schema x _ hitems (hdoc x hx) (hitem x hx)).mp hcheck
          · rintro h ⟨x, i⟩ hx
            have hmem : x ∈ xs := List.mem_of_getElem? (List.mem_zipIdx_iff_getElem?.mp hx)
            exact (check_nil_iff henv schema x _ hitems (hdoc x hmem) (hitem x hmem)).mpr (h x hmem)
      | _ => simp [checkArray, ValidItems]

end

/-- The comparison of the library is one by value for numbers of one type. -/
theorem byValue_castEqual : ByValue castEqual := by
  intro a b x y hcompare hx hy
  cases a with
  | int m =>
      cases hx
      cases b with
      | int n =>
          cases hy
          unfold castEqual
          rw [decide_eq_true_eq, Int.cast_inj]
          unfold Comparable at hcompare
          constructor
          · intro h
            have hmod := congrArg (fun k => k % ((2 ^ 64 : Nat) : Int)) h
            simp only [Int.bmod_emod] at hmod
            omega
          · intro h
            rw [h]
      | float q =>
          cases hy
          unfold castEqual
          simp only [double?, decide_eq_true_eq]
          rw [roundInt_of_small hcompare]
      | _ => cases hy
  | float q =>
      cases hx
      cases b with
      | int n =>
          cases hy
          unfold castEqual
          simp only [double?, decide_eq_true_eq]
          rw [roundInt_of_small hcompare]
      | float r =>
          cases hy
          unfold castEqual
          simp only [double?, decide_eq_true_eq]
      | _ => cases hy
  | _ => cases hx

/-- A library that compares by casts, and has every text match every pattern. -/
def castEnv : Env := ⟨fun _ => "", fun _ _ => true, castEqual⟩

def speedSchema : Schema :=
  document [("schema", { const := some (.int 1) }), ("speed", portSpeed)] ["schema"]

def speedDoc : Json := .obj [("schema", .int 1), ("speed", .int 25000)]

end Schema
end Topology
end Ostia

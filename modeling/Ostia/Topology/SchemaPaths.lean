import Ostia.Topology.SchemaMeaning

/-!
# Where the errors of a schema point

The path of an error is a JSON pointer.  Read as such, it leads to a value of the document,
and that value is the one that the message is about: some part of the schema applies to it,
and the keyword in the message does not hold of it.
-/

namespace Ostia
namespace Topology

open Foundation

namespace Schema

/-!
## JSON pointers
-/

/-- A token without its escapes; a tilde must start one. -/
def unescape : List Char -> Option (List Char)
  | [] => some []
  | '~' :: '0' :: rest => (unescape rest).map ('~' :: ·)
  | '~' :: '1' :: rest => (unescape rest).map ('/' :: ·)
  | '~' :: _ => none
  | c :: rest => (unescape rest).map (c :: ·)

/-- The tokens of a pointer: empty, or a slash before each. -/
def parsePointer (text : String) : Option (List String) :=
  match text.toList with
  | [] => some []
  | '/' :: rest => (rest.splitOn '/').mapM fun t => (unescape t).map String.ofList
  | _ => none

/-- The number of an element, in decimal and without leading zeros. -/
def arrayIndex? (token : String) : Option Nat :=
  let n := Nat.ofDigitChars 10 token.toList 0
  if token.toList = Nat.toDigits 10 n then some n else none

/-- The member or element that a token names. -/
def child? (doc : Json) (token : String) : Option Json :=
  match doc with
  | .obj fields => OrdMap.lookup token fields
  | .arr xs => do
      let i ← arrayIndex? token
      xs[i]?
  | _ => none

def descend (doc : Json) (tokens : List String) : Option Json := tokens.foldlM child? doc

/-- The value that a pointer leads to. -/
def resolve (doc : Json) (text : String) : Option Json := do
  let tokens ← parsePointer text
  descend doc tokens

/-- A path with more tokens, as the check writes it. -/
def extend (path : String) (tokens : List String) : String :=
  tokens.foldl (fun p token => p ++ "/" ++ escape token) path

def escapeChar (c : Char) : List Char :=
  if c = '~' then ['~', '0'] else if c = '/' then ['~', '1'] else [c]

theorem toList_escape (token : String) :
    (escape token).toList = token.toList.flatMap escapeChar := by
  unfold escape
  rw [String.toList_ofList]
  rfl

theorem unescape_cons {c : Char} (h : c ≠ '~') (rest : List Char) :
    unescape (c :: rest) = (unescape rest).map (c :: ·) := by
  rw [unescape]
  · intro rest' heq _
    exact absurd heq h
  · intro rest' heq _
    exact absurd heq h
  · intro heq
    exact absurd heq h

theorem unescape_escapeChars (cs : List Char) : unescape (cs.flatMap escapeChar) = some cs := by
  induction cs with
  | nil => rfl
  | cons c cs ih =>
      rw [List.flatMap_cons, escapeChar]
      split_ifs with htilde hslash
      · rw [List.cons_append, List.cons_append, List.nil_append, unescape, ih, htilde]
        rfl
      · rw [List.cons_append, List.cons_append, List.nil_append, unescape, ih, hslash]
        rfl
      · rw [List.singleton_append, unescape_cons htilde, ih]
        rfl

theorem slash_notMem_escape (token : String) : '/' ∉ (escape token).toList := by
  rw [toList_escape, List.mem_flatMap]
  rintro ⟨c, _, hc⟩
  unfold escapeChar at hc
  split_ifs at hc with htilde hslash
  · simp at hc
  · simp at hc
  · exact hslash (List.mem_singleton.mp hc).symm

theorem toList_extend (tokens : List String) : forall path : String,
    (extend path tokens).toList =
      path.toList ++ tokens.flatMap fun token => '/' :: (escape token).toList := by
  induction tokens with
  | nil =>
      intro path
      simp [extend]
  | cons token tokens ih =>
      intro path
      have hext : extend path (token :: tokens) =
          extend (path ++ "/" ++ escape token) tokens := rfl
      rw [hext, ih]
      simp

/-- The tokens that a path was extended with are read back. -/
theorem parsePointer_extend (tokens : List String) :
    parsePointer (extend "" tokens) = some tokens := by
  unfold parsePointer
  rw [toList_extend]
  cases tokens with
  | nil => rfl
  | cons token tokens =>
      have hjoin : forall (token : String) (tokens : List String),
          (escape token).toList ++ tokens.flatMap (fun t => '/' :: (escape t).toList) =
            ['/'].intercalate ((token :: tokens).map fun t => (escape t).toList) := by
        intro token tokens
        induction tokens generalizing token with
        | nil => simp
        | cons next tokens ih =>
            have hrest := ih next
            rw [List.map_cons] at hrest
            rw [List.flatMap_cons, List.map_cons, List.map_cons, List.intercalate_cons_cons,
              ← hrest]
            simp
      have hsplit : ((escape token).toList ++
          tokens.flatMap (fun t => '/' :: (escape t).toList)).splitOn '/' =
            (token :: tokens).map fun t => (escape t).toList := by
        rw [hjoin]
        refine List.splitOn_intercalate _ ?_ (by simp)
        intro cs hcs
        rcases List.mem_map.mp hcs with ⟨t, _, rfl⟩
        exact slash_notMem_escape t
      have htext : "".toList ++ (token :: tokens).flatMap (fun t => '/' :: (escape t).toList) =
          '/' :: ((escape token).toList ++
            tokens.flatMap (fun t => '/' :: (escape t).toList)) := by
        simp
      rw [htext]
      simp only [hsplit]
      generalize token :: tokens = all
      induction all with
      | nil => rfl
      | cons t all ih =>
          rw [List.map_cons, List.mapM_cons, ih, toList_escape, unescape_escapeChars]
          simp [String.ofList_toList]

theorem arrayIndex?_toString (i : Nat) : arrayIndex? (toString i) = some i := by
  unfold arrayIndex?
  rw [Nat.toString_eq_ofList_toDigits, String.toList_ofList]
  simp [Nat.ofDigitChars_ten_toDigits]

/-- The number of an element has nothing to escape. -/
theorem escape_toString (i : Nat) : escape (toString i) = toString i := by
  have hchars : forall cs : List Char, (forall c, c ∈ cs -> c.isDigit = true) ->
      cs.flatMap escapeChar = cs := by
    intro cs
    induction cs with
    | nil =>
        intro _
        rfl
    | cons c cs ih =>
        intro h
        rw [List.forall_mem_cons] at h
        have htilde : c ≠ '~' := by
          rintro rfl
          exact absurd h.1 (by decide)
        have hslash : c ≠ '/' := by
          rintro rfl
          exact absurd h.1 (by decide)
        rw [List.flatMap_cons, ih h.2, escapeChar, if_neg htilde, if_neg hslash,
          List.singleton_append]
  apply String.toList_injective
  rw [toList_escape, Nat.toString_eq_ofList_toDigits, String.toList_ofList]
  exact hchars _ fun c hc => Nat.isDigit_of_mem_toDigits (by decide) (by decide) hc

/-!
## The parts of a schema that apply
-/

/-- A part of the schema applies to the value that tokens lead to. -/
inductive At : Schema -> Json -> List String -> Schema -> Json -> Prop
  | here (schema : Schema) (doc : Json) : At schema doc [] schema doc
  | branch {schema sub branch : Schema} {branches : List Schema} {doc value : Json}
      {tokens : List String} (one : schema.oneOf = some branches) (mem : branch ∈ branches)
      (at_ : At branch doc tokens sub value) : At schema doc tokens sub value
  | member {schema sub property : Schema} {doc member value : Json} {key : String}
      {tokens : List String} (found : OrdMap.lookup key schema.properties = some property)
      (get : doc.get? key = some member) (at_ : At property member tokens sub value) :
      At schema doc (key :: tokens) sub value
  | item {schema sub items : Schema} {xs : List Json} {i : Nat} {item value : Json}
      {tokens : List String} (found : schema.items = some items) (get : xs[i]? = some item)
      (at_ : At items item tokens sub value) :
      At schema (.arr xs) (toString i :: tokens) sub value

theorem child?_of_get? {doc value : Json} {key : String} (h : doc.get? key = some value) :
    child? doc key = some value := by
  cases doc with
  | obj fields => exact h
  | _ => cases h

theorem child?_item {xs : List Json} {i : Nat} {item : Json} (h : xs[i]? = some item) :
    child? (.arr xs) (toString i) = some item := by
  rw [child?, arrayIndex?_toString]
  exact h

theorem At.descend {schema sub : Schema} {doc value : Json} {tokens : List String}
    (h : At schema doc tokens sub value) : descend doc tokens = some value := by
  induction h with
  | here => rfl
  | branch _ _ _ ih => exact ih
  | member _ get _ ih =>
      unfold Schema.descend
      rw [List.foldlM_cons, child?_of_get? get]
      exact ih
  | item _ get _ ih =>
      unfold Schema.descend
      rw [List.foldlM_cons, child?_item get]
      exact ih

/-!
## What an error says
-/

/-- A keyword of the schema does not hold of the value, and a message says which one. -/
inductive Violates (env : Env) (schema : Schema) (value : Json) : String -> Prop
  | type {t : TypeSpec} (keyword : schema.type = some t)
      (broken : forall name, name ∈ TypeSpec.names t -> ¬ HasType value name) :
      Violates env schema value ("expected type " ++ env.dump (TypeSpec.toJson t) ++ ", got " ++
        value.typeName)
  | const {c : Json} (keyword : schema.const = some c) (broken : ¬ Equal value c) :
      Violates env schema value ("expected " ++ env.dump c ++ ", got " ++ env.dump value)
  | enum {values : List Json} (keyword : schema.enum = some values)
      (broken : forall v, v ∈ values -> ¬ Equal v value) :
      Violates env schema value ("expected one of " ++ env.dump (Json.arr values) ++ ", got " ++
        env.dump value)
  | oneOf {before between after : List Schema} {first second : Schema}
      (keyword : schema.oneOf = some (before ++ first :: between ++ second :: after))
      (broken : Valid env first value ∧ Valid env second value) :
      Violates env schema value "matches more than one oneOf branch"
  | pattern {p s : String} (keyword : schema.pattern = some p) (text : value = .str s)
      (broken : env.regexSearch p s = false) :
      Violates env schema value ("does not match pattern " ++ env.dump (Json.str p))
  | minimum {m : Int} {x : Rat} (keyword : schema.minimum = some m)
      (number : number? value = some x) (broken : x < m) :
      Violates env schema value ("below minimum " ++ env.dump (Json.int m))
  | maximum {m : Int} {x : Rat} (keyword : schema.maximum = some m)
      (number : number? value = some x) (broken : m < x) :
      Violates env schema value ("above maximum " ++ env.dump (Json.int m))
  | required {name : String} {fields : List (String × Json)} (keyword : name ∈ schema.required)
      (object : value = .obj fields) (broken : name ∉ fields.map Prod.fst) :
      Violates env schema value ("missing required property " ++ env.dump (Json.str name))

/-- A member that its object's schema neither knows nor allows. -/
structure Unexpected (schema : Schema) (parent : Json) (key : String) (value : Json) : Prop where
  get : parent.get? key = some value
  unknown : OrdMap.lookup key schema.properties = none
  refused : schema.additionalProperties = false

/-- The value that an error points at is the one that its message is about. -/
def Blames (env : Env) (schema : Schema) (doc : Json) (tokens : List String) (value : Json)
    (message : String) : Prop :=
  (exists sub, At schema doc tokens sub value ∧ Violates env sub value message) ∨
  exists before key sub parent, tokens = before ++ [key] ∧ At schema doc before sub parent ∧
    Unexpected sub parent key value ∧ message = "unexpected property"

theorem Blames.descend {env : Env} {schema : Schema} {doc value : Json} {tokens : List String}
    {message : String} (h : Blames env schema doc tokens value message) :
    descend doc tokens = some value := by
  rcases h with ⟨_, hat, _⟩ | ⟨before, key, _, parent, rfl, hat, hunexpected, _⟩
  · exact hat.descend
  · have hparent := hat.descend
    unfold Schema.descend at hparent ⊢
    rw [List.foldlM_append, hparent, Option.bind_eq_bind, Option.bind_some, List.foldlM_cons,
      child?_of_get? hunexpected.get]
    rfl

/-- The path of an error continues the path of the check to the value that it is about. -/
def Located (env : Env) (schema : Schema) (doc : Json) (path : String) (e : SchemaError) : Prop :=
  exists tokens value, e.path = extend path tokens ∧ Blames env schema doc tokens value e.message

/-- An error about the value that is checked. -/
theorem located_here {env : Env} {schema : Schema} {doc : Json} {path message : String}
    (h : Violates env schema doc message) : Located env schema doc path ⟨path, message⟩ :=
  ⟨[], doc, rfl, Or.inl ⟨schema, At.here schema doc, h⟩⟩

/-- What is blamed by a part of the schema is blamed by the schema. -/
theorem Blames.lift {env : Env} {schema part : Schema} {doc inner value : Json}
    {tokens : List String} {message : String} (token : List String)
    (hat : forall sub tokens value, At part inner tokens sub value ->
      At schema doc (token ++ tokens) sub value)
    (h : Blames env part inner tokens value message) :
    Blames env schema doc (token ++ tokens) value message := by
  rcases h with ⟨sub, hsub, hviolates⟩ | ⟨before, key, sub, parent, rfl, hsub, hunexpected, hm⟩
  · exact Or.inl ⟨sub, hat sub tokens value hsub, hviolates⟩
  · exact Or.inr ⟨token ++ before, key, sub, parent, (List.append_assoc _ _ _).symm,
      hat sub before parent hsub, hunexpected, hm⟩

theorem located_branch {env : Env} {schema branch : Schema} {branches : List Schema} {doc : Json}
    {path : String} {e : SchemaError} (hone : schema.oneOf = some branches)
    (hmem : branch ∈ branches) (h : Located env branch doc path e) :
    Located env schema doc path e := by
  rcases h with ⟨tokens, value, hpath, hblames⟩
  exact ⟨tokens, value, hpath, hblames.lift []
    fun _ _ _ hat => At.branch hone hmem hat⟩

theorem located_member {env : Env} {schema property : Schema} {doc member : Json}
    {path key : String} {e : SchemaError}
    (hfound : OrdMap.lookup key schema.properties = some property)
    (hget : doc.get? key = some member)
    (h : Located env property member (path ++ "/" ++ escape key) e) :
    Located env schema doc path e := by
  rcases h with ⟨tokens, value, hpath, hblames⟩
  exact ⟨key :: tokens, value, hpath, hblames.lift [key]
    fun _ _ _ hat => At.member hfound hget hat⟩

theorem located_item {env : Env} {schema items : Schema} {xs : List Json} {item : Json} {i : Nat}
    {path : String} {e : SchemaError} (hfound : schema.items = some items)
    (hget : xs[i]? = some item) (h : Located env items item (path ++ "/" ++ toString i) e) :
    Located env schema (.arr xs) path e := by
  rcases h with ⟨tokens, value, hpath, hblames⟩
  rw [← escape_toString] at hpath
  exact ⟨toString i :: tokens, value, hpath, hblames.lift [toString i]
    fun _ _ _ hat => At.item hfound hget hat⟩

/-- A member without a property points at itself. -/
theorem located_unexpected {env : Env} {schema : Schema} {doc member : Json} {path key : String}
    (h : Unexpected schema doc key member) :
    Located env schema doc path ⟨path ++ "/" ++ escape key, "unexpected property"⟩ :=
  ⟨[key], member, rfl, Or.inr ⟨[], key, schema, doc, rfl, At.here schema doc, h, rfl⟩⟩

/-!
## Documents in order
-/

mutual

/-- The members of every object are listed in the order of their keys, each key once. -/
def InOrder : Json -> Prop
  | .arr xs => InOrderItems xs
  | .obj fields => fields.Pairwise (fun e e' => e.1 < e'.1) ∧ InOrderFields fields
  | _ => True

def InOrderItems : List Json -> Prop
  | [] => True
  | x :: xs => InOrder x ∧ InOrderItems xs

def InOrderFields : List (String × Json) -> Prop
  | [] => True
  | (_, value) :: fields => InOrder value ∧ InOrderFields fields

end

theorem inOrderItems_mem {xs : List Json} (h : InOrderItems xs) {x : Json} (hx : x ∈ xs) :
    InOrder x := by
  induction xs with
  | nil => cases hx
  | cons y xs ih =>
      rw [InOrderItems] at h
      rcases List.mem_cons.mp hx with rfl | hx
      · exact h.1
      · exact ih h.2 hx

theorem inOrderFields_mem {fields : List (String × Json)} (h : InOrderFields fields)
    {key : String} {value : Json} (hmem : (key, value) ∈ fields) : InOrder value := by
  induction fields with
  | nil => cases hmem
  | cons e fields ih =>
      obtain ⟨key', value'⟩ := e
      rw [InOrderFields] at h
      rcases List.mem_cons.mp hmem with heq | hmem
      · cases heq
        exact h.1
      · exact ih h.2 hmem

/-!
## Every error is located
-/

theorem mem_fewest {branches : List (List SchemaError)} {e : SchemaError}
    (h : e ∈ fewest branches) : exists errors, errors ∈ branches ∧ e ∈ errors := by
  cases branches with
  | nil => cases h
  | cons first rest =>
      have hfold : forall (rest : List (List SchemaError)) (best : List SchemaError),
          e ∈ rest.foldl (fun best errors =>
            if errors.length < best.length then errors else best) best ->
          e ∈ best ∨ exists errors, errors ∈ rest ∧ e ∈ errors := by
        intro rest
        induction rest with
        | nil =>
            intro best hbest
            exact Or.inl hbest
        | cons next rest ih =>
            intro best hbest
            rw [List.foldl_cons] at hbest
            rcases ih _ hbest with hmem | ⟨errors, herrors, hmem⟩
            · split_ifs at hmem
              · exact Or.inr ⟨next, List.mem_cons_self, hmem⟩
              · exact Or.inl hmem
            · exact Or.inr ⟨errors, List.mem_cons_of_mem next herrors, hmem⟩
      rcases hfold rest first h with hmem | ⟨errors, herrors, hmem⟩
      · exact ⟨first, List.mem_cons_self, hmem⟩
      · exact ⟨errors, List.mem_cons_of_mem first herrors, hmem⟩

theorem type_located {env : Env} {schema : Schema} {doc : Json} {path : String} {t : TypeSpec}
    (hdoc : Proper doc) (htype : schema.type = some t) (h : TypeSpec.admits doc t = false) :
    Located env schema doc path ⟨path, "expected type " ++ env.dump (TypeSpec.toJson t) ++
      ", got " ++ doc.typeName⟩ := by
  apply located_here
  apply Violates.type htype
  intro name hname hholds
  rw [(admits_iff hdoc).mpr ⟨name, hname, hholds⟩] at h
  cases h

theorem const_located {env : Env} (henv : ByValue env.sameNumber) {schema : Schema} {doc : Json}
    {path : String} {e : SchemaError}
    (hnumbers : AllComparable (numbers doc) (schema.const.toList.flatMap numbers))
    (he : e ∈ constErrors env schema.const doc path) : Located env schema doc path e := by
  unfold constErrors at he
  cases hconst : schema.const with
  | none =>
      rw [hconst] at he
      cases he
  | some c =>
      rw [hconst] at hnumbers
      have hc : AllComparable (numbers doc) (numbers c) := by
        apply hnumbers.mono (List.Subset.refl _)
        simp
      simp only [hconst] at he
      split_ifs at he with hsame
      · cases he
      · rw [List.mem_singleton.mp he]
        exact located_here
          (Violates.const hconst fun h => hsame ((same_iff henv doc c hc).mpr h))

theorem enum_located {env : Env} (henv : ByValue env.sameNumber) {schema : Schema} {doc : Json}
    {path : String} {e : SchemaError}
    (hnumbers : AllComparable (numbers doc) (numbersItems (schema.enum.getD [])))
    (he : e ∈ enumErrors env schema.enum doc path) : Located env schema doc path e := by
  unfold enumErrors at he
  cases henum : schema.enum with
  | none =>
      rw [henum] at he
      cases he
  | some values =>
      simp only [henum] at he
      split_ifs at he with hany
      · cases he
      · rw [List.mem_singleton.mp he]
        apply located_here
        apply Violates.enum henum
        intro v hv h
        rw [henum] at hnumbers
        have hcompare := (hnumbers.mono (List.Subset.refl _) (numbers_item hv)).symm
        exact hany (List.any_eq_true.mpr ⟨v, hv, (same_iff henv v doc hcompare).mpr h⟩)

theorem pattern_located {env : Env} {schema : Schema} {doc : Json} {path : String}
    {e : SchemaError} (he : e ∈ patternErrors env schema.pattern doc path) :
    Located env schema doc path e := by
  cases hpattern : schema.pattern with
  | none =>
      rw [hpattern] at he
      cases he
  | some p =>
      rw [hpattern] at he
      cases doc with
      | str s =>
          unfold patternErrors at he
          simp only at he
          split_ifs at he with hsearch
          · cases he
          · rw [List.mem_singleton.mp he]
            exact located_here (Violates.pattern hpattern rfl (Bool.eq_false_iff.mpr hsearch))
      | _ => cases he

/-- A number whose double is below that of a small bound is below the bound. -/
theorem double?_lt {doc : Json} {x : Rat} (hx : double? doc = some x) {m : Int} (hm : Small m) :
    exists y, number? doc = some y ∧ (x < roundInt m <-> y < m) ∧ (x > roundInt m <-> y > m) := by
  cases doc with
  | int n =>
      cases hx
      refine ⟨n, rfl, ?_, ?_⟩
      · rw [Int.cast_lt, Int.cast_lt, roundInt_of_small hm]
        exact roundInt_lt_iff hm
      · rw [gt_iff_lt, gt_iff_lt, Int.cast_lt, Int.cast_lt, roundInt_of_small hm]
        exact lt_roundInt_iff hm
  | float q =>
      cases hx
      rw [roundInt_of_small hm]
      exact ⟨x, rfl, Iff.rfl, Iff.rfl⟩
  | _ => cases hx

theorem bound_located {env : Env} {schema : Schema} {doc : Json} {path : String}
    {e : SchemaError} (hmin : forall m, schema.minimum = some m -> Small m)
    (hmax : forall m, schema.maximum = some m -> Small m)
    (he : e ∈ boundErrors env schema.minimum schema.maximum doc path) :
    Located env schema doc path e := by
  unfold boundErrors at he
  cases hx : double? doc with
  | none =>
      rw [hx] at he
      cases he
  | some x =>
      simp only [hx, List.mem_append] at he
      rcases he with he | he
      · cases hminimum : schema.minimum with
        | none =>
            rw [hminimum] at he
            cases he
        | some m =>
            simp only [hminimum] at he
            split_ifs at he with hlt
            · rw [List.mem_singleton.mp he]
              rcases double?_lt hx (hmin m hminimum) with ⟨y, hy, hbelow, _⟩
              exact located_here (Violates.minimum hminimum hy (hbelow.mp hlt))
            · cases he
      · cases hmaximum : schema.maximum with
        | none =>
            rw [hmaximum] at he
            cases he
        | some m =>
            simp only [hmaximum] at he
            split_ifs at he with hlt
            · rw [List.mem_singleton.mp he]
              rcases double?_lt hx (hmax m hmaximum) with ⟨y, hy, _, habove⟩
              exact located_here (Violates.maximum hmaximum hy (habove.mp hlt))
            · cases he

theorem required_located {env : Env} {schema : Schema} {fields : List (String × Json)}
    {path : String} {e : SchemaError}
    (he : e ∈ requiredErrors env schema.required (.obj fields) path) :
    Located env schema (.obj fields) path e := by
  rcases List.mem_flatMap.mp he with ⟨name, hname, he⟩
  split_ifs at he with hcontains
  · cases he
  · rw [List.mem_singleton.mp he]
    exact located_here
      (Violates.required hname rfl fun hmem => hcontains (contains_iff.mpr hmem))

/-- A branch without errors is found between the other ones. -/
theorem exists_accepted {env : Env} {branches : List Schema} {doc : Json} {path : String}
    (h : 0 < (checkBranches env branches doc path).countP List.isEmpty) :
    exists before branch after, branches = before ++ branch :: after ∧
      Accepts env branch doc := by
  induction branches with
  | nil =>
      rw [checkBranches] at h
      cases h
  | cons branch rest ih =>
      rw [checkBranches, List.countP_cons] at h
      by_cases hcheck : check env branch doc path = []
      · exact ⟨[], branch, rest, rfl, path, hcheck⟩
      · have hrest : 0 < (checkBranches env rest doc path).countP List.isEmpty := by
          simpa [hcheck] using h
        rcases ih hrest with ⟨before, found, after, heq, haccepts⟩
        exact ⟨branch :: before, found, after, by rw [heq, List.cons_append], haccepts⟩

theorem exists_two_accepted {env : Env} {branches : List Schema} {doc : Json} {path : String}
    (h : 1 < (checkBranches env branches doc path).countP List.isEmpty) :
    exists before first between second after,
      branches = before ++ first :: between ++ second :: after ∧
        Accepts env first doc ∧ Accepts env second doc := by
  induction branches with
  | nil =>
      rw [checkBranches] at h
      cases h
  | cons branch rest ih =>
      rw [checkBranches, List.countP_cons] at h
      by_cases hcheck : check env branch doc path = []
      · have hrest : 0 < (checkBranches env rest doc path).countP List.isEmpty := by
          simpa [hcheck] using h
        rcases exists_accepted hrest with ⟨between, second, after, heq, haccepts⟩
        exact ⟨[], branch, between, second, after, by rw [heq]; rfl, ⟨path, hcheck⟩, haccepts⟩
      · have hrest : 1 < (checkBranches env rest doc path).countP List.isEmpty := by
          simpa [hcheck] using h
        rcases ih hrest with ⟨before, first, between, second, after, heq, haccepts⟩
        exact ⟨branch :: before, first, between, second, after, by rw [heq]; rfl, haccepts⟩

/-- A branch that finds no error is one that holds. -/
theorem valid_of_accepts {env : Env} (henv : ByValue env.sameNumber) {branches : List Schema}
    {doc : Json} (hbranches : SupportedBranches branches) (hproper : Proper doc)
    (hnumbers : AllComparable (numbers doc) (constantsBranches branches)) :
    forall branch, branch ∈ branches -> Accepts env branch doc -> Valid env branch doc := by
  induction branches with
  | nil =>
      intro branch hmem
      cases hmem
  | cons first rest ih =>
      rw [SupportedBranches] at hbranches
      rw [constantsBranches] at hnumbers
      have hfirst := hnumbers.mono (List.Subset.refl _) (List.subset_append_left _ _)
      have hrest := hnumbers.mono (List.Subset.refl _) (List.subset_append_right _ _)
      intro branch hmem haccepts
      rcases List.mem_cons.mp hmem with rfl | hmem
      · rcases haccepts with ⟨path, hcheck⟩
        exact (check_nil_iff henv branch doc path hbranches.1 hproper hfirst).mp hcheck
      · exact ih hbranches.2 hrest branch hmem haccepts

mutual

theorem check_located {env : Env} (henv : ByValue env.sameNumber) (schema : Schema) (doc : Json)
    (path : String) (hschema : Supported schema) (hdoc : InOrder doc) (hproper : Proper doc)
    (hnumbers : AllComparable (numbers doc) (constants schema)) (e : SchemaError)
    (he : e ∈ check env schema doc path) : Located env schema doc path e := by
  obtain ⟨type, const, enum, oneOf, pattern, minimum, maximum, properties, required,
    additionalProperties, items⟩ := schema
  rw [Supported] at hschema
  rcases hschema with ⟨hmin, hmax, hone, hproperties, hitems⟩
  rcases comparable_parts hnumbers with ⟨hconst, henum, hnone, hnproperties, hnitems⟩
  rw [check] at he
  cases hfilter : type.filter (fun t => !TypeSpec.admits doc t) with
  | some t =>
      rw [hfilter] at he
      rw [List.mem_singleton.mp he]
      rw [Option.filter_eq_some_iff] at hfilter
      exact type_located hproper hfilter.1 (by simpa using hfilter.2)
  | none =>
      simp only [hfilter, List.mem_append] at he
      rcases he with (((((he | he) | he) | he) | he) | he) | he
      · exact const_located henv hconst he
      · exact enum_located henv henum he
      · cases oneOf with
        | none =>
            rw [checkOneOf] at he
            cases he
        | some branches =>
            rw [SupportedOneOf] at hone
            rw [constantsOneOf] at hnone
            rw [checkOneOf, oneOfErrors, ← List.countP_eq_length_filter] at he
            split_ifs at he with hpassing hmany
            · cases he
            · rw [List.mem_singleton.mp he]
              rcases exists_two_accepted hmany with
                ⟨before, first, between, second, after, heq, hfirst, hsecond⟩
              have hvalid := valid_of_accepts henv hone.2 hproper hnone
              exact located_here (Violates.oneOf (congrArg some heq)
                ⟨hvalid first (by rw [heq]; simp) hfirst,
                  hvalid second (by rw [heq]; simp) hsecond⟩)
            · rcases mem_fewest he with ⟨errors, herrors, he⟩
              rcases checkBranches_located henv branches doc path hone.2 hdoc hproper hnone errors
                (List.mem_of_mem_filter herrors) e he with ⟨branch, hbranch, hlocated⟩
              exact located_branch rfl hbranch hlocated
      · exact pattern_located he
      · exact bound_located hmin hmax he
      · cases doc with
        | obj fields =>
            rw [InOrder] at hdoc
            rw [Proper, properFields_iff] at hproper
            rw [numbers] at hnproperties
            rw [objectErrors, List.mem_append] at he
            rcases he with he | he
            · exact required_located he
            · rcases List.mem_flatMap.mp he with ⟨⟨key, value⟩, hfield, he⟩
              have hget : (Json.obj fields).get? key = some value :=
                OrdMap.lookup_of_mem hdoc.1 hfield
              simp only at he
              cases hproperty : checkProperty env properties key value
                  (path ++ "/" ++ escape key) with
              | some errors =>
                  rw [hproperty] at he
                  rcases checkProperty_located henv properties key value _ hproperties
                    (inOrderFields_mem hdoc.2 hfield) (hproper key value hfield)
                    (hnproperties.mono (numbers_field hfield) (List.Subset.refl _)) errors
                    hproperty e he with
                    ⟨property, hfound, hlocated⟩
                  exact located_member hfound hget hlocated
              | none =>
                  rw [hproperty] at he
                  simp only at he
                  split_ifs at he with hadditional
                  · cases he
                  · rw [List.mem_singleton.mp he]
                    refine located_unexpected ⟨hget, ?_, Bool.eq_false_iff.mpr hadditional⟩
                    exact checkProperty_eq_none hproperty
        | _ => cases he
      · cases items with
        | none =>
            rw [checkArray] at he
            cases he
        | some schema =>
            rw [SupportedItems] at hitems
            cases doc with
            | arr xs =>
                rw [InOrder] at hdoc
                rw [Proper, properItems_iff] at hproper
                rw [numbers, constantsItems] at hnitems
                rw [checkArray] at he
                rcases List.mem_flatMap.mp he with ⟨⟨x, i⟩, hx, he⟩
                have hget : xs[i]? = some x := List.mem_zipIdx_iff_getElem?.mp hx
                have hmem : x ∈ xs := List.mem_of_getElem? hget
                exact located_item rfl hget
                  (check_located henv schema x _ hitems (inOrderItems_mem hdoc hmem)
                    (hproper x hmem) (hnitems.mono (numbers_item hmem) (List.Subset.refl _)) e he)
            | _ => simp [checkArray] at he

theorem checkBranches_located {env : Env} (henv : ByValue env.sameNumber) (branches : List Schema)
    (doc : Json) (path : String) (hbranches : SupportedBranches branches) (hdoc : InOrder doc)
    (hproper : Proper doc) (hnumbers : AllComparable (numbers doc) (constantsBranches branches))
    (errors : List SchemaError)
    (herrors : errors ∈ checkBranches env branches doc path) (e : SchemaError)
    (he : e ∈ errors) : exists branch, branch ∈ branches ∧ Located env branch doc path e := by
  cases branches with
  | nil =>
      rw [checkBranches] at herrors
      cases herrors
  | cons branch rest =>
      rw [SupportedBranches] at hbranches
      rw [constantsBranches] at hnumbers
      have hbranch := hnumbers.mono (List.Subset.refl _) (List.subset_append_left _ _)
      have hrest := hnumbers.mono (List.Subset.refl _) (List.subset_append_right _ _)
      rw [checkBranches] at herrors
      rcases List.mem_cons.mp herrors with rfl | herrors
      · exact ⟨branch, List.mem_cons_self,
          check_located henv branch doc path hbranches.1 hdoc hproper hbranch e he⟩
      · rcases checkBranches_located henv rest doc path hbranches.2 hdoc hproper hrest errors
          herrors
          e he with
          ⟨found, hfound, hlocated⟩
        exact ⟨found, List.mem_cons_of_mem branch hfound, hlocated⟩

theorem checkProperty_located {env : Env} (henv : ByValue env.sameNumber)
    (properties : List (String × Schema)) (key : String) (value : Json) (path : String)
    (hproperties : SupportedProperties properties) (hvalue : InOrder value) (hproper : Proper value)
    (hnumbers : AllComparable (numbers value) (constantsProperties properties))
    (errors : List SchemaError)
    (herrors : checkProperty env properties key value path = some errors) (e : SchemaError)
    (he : e ∈ errors) :
    exists property, OrdMap.lookup key properties = some property ∧
      Located env property value path e := by
  cases properties with
  | nil =>
      rw [checkProperty] at herrors
      cases herrors
  | cons property rest =>
      obtain ⟨name, schema⟩ := property
      rw [SupportedProperties] at hproperties
      rw [constantsProperties] at hnumbers
      rw [checkProperty] at herrors
      rw [OrdMap.lookup]
      split_ifs at herrors with hname
      · rw [if_pos hname]
        rw [← Option.some.inj herrors] at he
        exact ⟨schema, rfl, check_located henv schema value path hproperties.1 hvalue hproper
          (hnumbers.mono (List.Subset.refl _) (List.subset_append_left _ _)) e he⟩
      · rw [if_neg hname]
        exact checkProperty_located henv rest key value path hproperties.2 hvalue hproper
          (hnumbers.mono (List.Subset.refl _) (List.subset_append_right _ _)) errors herrors e he

end

def escapedSchema : Schema := { properties := [("a/b~c", { items := some (ofType "integer") })] }

def escapedDoc : Json := .obj [("a/b~c", .arr [.int 1, .null])]

end Schema
end Topology
end Ostia

import Ostia.Topology.Json
import Ostia.Foundation.Double

/-!
# Schema validation

A deliberate subset of JSON Schema, only what the fixture schemas need, and the
embedded schemas of the two documents that the builder reads.  A violation is
reported with the JSON pointer of the value and a text.

A document without violations has every required member, and each member obeys
the schema of its property.
-/

namespace Ostia
namespace Topology

open Foundation

structure SchemaError where
  path : String
  message : String
deriving DecidableEq, Repr

/-- The value of the type keyword: one name or several. -/
inductive TypeSpec where
  | one (name : String)
  | many (names : List String)

/-- A schema document; a keyword that is absent from it is none. -/
structure Schema where
  type : Option TypeSpec := none
  const : Option Json := none
  enum : Option (List Json) := none
  oneOf : Option (List Schema) := none
  pattern : Option String := none
  minimum : Option Int := none
  maximum : Option Int := none
  properties : List (String × Schema) := []
  required : List String := []
  additionalProperties : Bool := true
  items : Option Schema := none

namespace Schema

def TypeSpec.toJson : TypeSpec -> Json
  | .one name => Json.str name
  | .many names => Json.arr (names.map Json.str)

/-- Escape a member name for a JSON pointer. -/
def escape (token : String) : String :=
  String.ofList (token.toList.flatMap fun c =>
    if c = '~' then ['~', '0'] else if c = '/' then ['~', '1'] else [c])

def hasType (doc : Json) (type : String) : Bool :=
  if type = "object" then doc.isObject
  else if type = "array" then doc.isArray
  else if type = "string" then doc.isString
  else if type = "integer" then doc.isNumberInteger
  else if type = "number" then doc.isNumber
  else if type = "boolean" then doc.isBoolean
  else if type = "null" then doc.isNull
  else false

def TypeSpec.admits (doc : Json) : TypeSpec -> Bool
  | .one name => hasType doc name
  | .many names => names.any (hasType doc)

/-- The number a document holds. -/
def number? : Json -> Option Rat
  | .int n => some n
  | .float q => some q
  | _ => none

/-- The number a document holds, as a double. -/
def double? : Json -> Option Rat
  | .int n => some (roundInt n)
  | .float q => some q
  | _ => none

/--
What validation needs from outside: the text of a value, the regular expressions, and what the
JSON library says of the equality of two numbers.
-/
structure Env where
  dump : Json -> String
  regexSearch : String -> String -> Bool
  sameNumber : Json -> Json -> Bool

section Same

variable (env : Env)

mutual

/-- Equality of JSON values. -/
def same : Json -> Json -> Bool
  | .null, .null => true
  | .bool x, .bool y => x == y
  | .str x, .str y => x == y
  | .arr xs, .arr ys => sameItems xs ys
  | .obj fs, .obj gs => sameFields fs gs
  | a, b => a.isNumber && b.isNumber && env.sameNumber a b

def sameItems : List Json -> List Json -> Bool
  | [], [] => true
  | x :: xs, y :: ys => same x y && sameItems xs ys
  | _, _ => false

/-- Objects are iterated in the order of their keys. -/
def sameFields : List (String × Json) -> List (String × Json) -> Bool
  | [], [] => true
  | (key, x) :: fs, (key', y) :: gs => key == key' && same x y && sameFields fs gs
  | _, _ => false

end

end Same

/-- A library that compares two integers as signed 64-bit ones, and other numbers as doubles. -/
def castEqual (a b : Json) : Bool :=
  match a, b with
  | .int m, .int n => decide (m.bmod (2 ^ 64) = n.bmod (2 ^ 64))
  | a, b =>
      match double? a, double? b with
      | some x, some y => decide (x = y)
      | _, _ => false

/-- Among the errors of the branches, the first shortest list. -/
def fewest : List (List SchemaError) -> List SchemaError
  | [] => []
  | e :: rest =>
      rest.foldl (fun best errors => if errors.length < best.length then errors else best) e

/-- The errors of a oneOf from the errors of its branches. -/
def oneOfErrors (path : String) (branches : List (List SchemaError)) :
    List SchemaError :=
  let passing := (branches.filter List.isEmpty).length
  if passing = 1 then []
  else if passing > 1 then [⟨path, "matches more than one oneOf branch"⟩]
  else fewest (branches.filter fun e => !e.isEmpty)

def constErrors (env : Env) (const : Option Json) (doc : Json) (path : String) :
    List SchemaError :=
  match const with
  | some c =>
      if same env doc c then []
      else [⟨path, "expected " ++ env.dump c ++ ", got " ++ env.dump doc⟩]
  | none => []

def enumErrors (env : Env) (enum : Option (List Json)) (doc : Json) (path : String) :
    List SchemaError :=
  match enum with
  | some values =>
      if values.any (fun v => same env v doc) then []
      else [⟨path, "expected one of " ++ env.dump (Json.arr values) ++ ", got " ++
        env.dump doc⟩]
  | none => []

def patternErrors (env : Env) (pattern : Option String) (doc : Json) (path : String) :
    List SchemaError :=
  match pattern, doc with
  | some p, .str s =>
      if env.regexSearch p s then []
      else [⟨path, "does not match pattern " ++ env.dump (Json.str p)⟩]
  | _, _ => []

def boundErrors (env : Env) (minimum maximum : Option Int) (doc : Json)
    (path : String) : List SchemaError :=
  match double? doc with
  | none => []
  | some x =>
      (match minimum with
        | some m =>
            if x < roundInt m then [⟨path, "below minimum " ++ env.dump (Json.int m)⟩] else []
        | none => []) ++
      (match maximum with
        | some m =>
            if x > roundInt m then [⟨path, "above maximum " ++ env.dump (Json.int m)⟩] else []
        | none => [])

def requiredErrors (env : Env) (required : List String) (doc : Json) (path : String) :
    List SchemaError :=
  required.flatMap fun name =>
    if doc.contains name then []
    else [⟨path, "missing required property " ++ env.dump (Json.str name)⟩]

/-- The errors of an object, given the errors of its members by property. -/
def objectErrors (env : Env)
    (property : String -> Json -> String -> Option (List SchemaError))
    (required : List String) (additionalProperties : Bool) (doc : Json)
    (path : String) : List SchemaError :=
  match doc with
  | .obj fields =>
      requiredErrors env required doc path ++
        fields.flatMap fun field =>
          let child := path ++ "/" ++ escape field.1
          match property field.1 field.2 child with
          | some errors => errors
          | none => if additionalProperties then [] else [⟨child, "unexpected property"⟩]
  | _ => []

mutual

/-- Every violation of the schema; a wrong type hides the other keywords. -/
def check (env : Env) : Schema -> Json -> String -> List SchemaError
  | ⟨type, const, enum, oneOf, pattern, minimum, maximum, properties, required,
      additionalProperties, items⟩, doc, path =>
      match type.filter (fun t => !TypeSpec.admits doc t) with
      | some t =>
          [⟨path, "expected type " ++ env.dump (TypeSpec.toJson t) ++ ", got " ++
            doc.typeName⟩]
      | none =>
          constErrors env const doc path ++ enumErrors env enum doc path ++
            checkOneOf env oneOf doc path ++ patternErrors env pattern doc path ++
            boundErrors env minimum maximum doc path ++
            objectErrors env (fun key value child =>
              checkProperty env properties key value child)
              required additionalProperties doc path ++
            checkArray env items doc path

def checkOneOf (env : Env) : Option (List Schema) -> Json -> String -> List SchemaError
  | none, _, _ => []
  | some branches, doc, path => oneOfErrors path (checkBranches env branches doc path)

def checkBranches (env : Env) : List Schema -> Json -> String -> List (List SchemaError)
  | [], _, _ => []
  | branch :: rest, doc, path =>
      check env branch doc path :: checkBranches env rest doc path

/-- The errors of a member by the schema of its property; nothing for an unknown one. -/
def checkProperty (env : Env) : List (String × Schema) -> String -> Json -> String ->
    Option (List SchemaError)
  | [], _, _, _ => none
  | (name, schema) :: rest, key, value, path =>
      if name = key then some (check env schema value path)
      else checkProperty env rest key value path

def checkArray (env : Env) : Option Schema -> Json -> String -> List SchemaError
  | none, _, _ => []
  | some schema, doc, path =>
      match doc with
      | .arr xs =>
          xs.zipIdx.flatMap fun x =>
            check env schema x.1 (path ++ "/" ++ toString x.2)
      | _ => []

end

/-!
## The embedded schemas
-/

def ofType (name : String) : Schema := { type := some (.one name) }

def ofEnum (values : List String) : Schema := { enum := some (values.map Json.str) }

/-- An array of objects with required members and no other ones than the listed. -/
def arrayOf (properties : List (String × Schema)) (required : List String) : Schema :=
  { type := some (.one "array")
    items := some
      { type := some (.one "object")
        properties := properties
        required := required
        additionalProperties := false } }

/-- A document with required members and no other ones than the listed. -/
def document (properties : List (String × Schema)) (required : List String) : Schema :=
  { type := some (.one "object")
    properties := properties
    required := required
    additionalProperties := false }

def busIdPattern : String := "^[0-9a-f]{4}:[0-9a-f]{2}:[0-9a-f]{2}\\.[0-7]$"

def isHex (c : Char) : Bool := c.isDigit || ('a' ≤ c && c ≤ 'f')

/-- Whether a text is a bus ID, as the pattern says. -/
def isBusId (text : String) : Bool :=
  match text.toList with
  | [a, b, c, d, ':', e, f, ':', g, h, '.', i] =>
      [a, b, c, d, e, f, g, h].all isHex && ('0' ≤ i && i ≤ '7')
  | _ => false

def busId : Schema := { type := some (.one "string"), pattern := some busIdPattern }

def probe : Schema := ofEnum ["ok", "not_supported", "unknown"]

def linkLayer : Schema := ofEnum ["ethernet", "infiniband", "unknown"]

def integerOrString : Schema := { type := some (.many ["integer", "string"]) }

def nvlinkProperties : List (String × Schema) :=
  [("link", ofType "integer"),
   ("state", ofEnum ["active", "inactive", "not_supported"]),
   ("version", ofType "integer"),
   ("remote_type", ofEnum ["gpu", "switch", "unknown"]),
   ("remote_bus_id", busId)]

def nvlinks : Schema :=
  { oneOf := some
      [arrayOf nvlinkProperties ["link", "state", "version", "remote_type"],
       { const := some (Json.str "not_supported") }] }

def gpuProperties : List (String × Schema) :=
  [("bus_id", busId), ("name", ofType "string"), ("cc_major", ofType "integer"),
   ("cc_minor", ofType "integer"), ("memory_bytes", ofType "integer"),
   ("cuda_ordinal", ofType "integer"), ("nvlinks", nvlinks)]

def p2pProperties : List (String × Schema) :=
  [("a", busId), ("b", busId), ("read", probe), ("write", probe),
   ("nvlink", probe), ("atomics", probe)]

/-- The schema of nvml.json. -/
def nvml : Schema :=
  document
    [("schema", { const := some (Json.int 1) }),
     ("gpus", arrayOf gpuProperties
       ["bus_id", "name", "cc_major", "cc_minor", "memory_bytes", "cuda_ordinal",
        "nvlinks"]),
     ("p2p", arrayOf p2pProperties ["a", "b", "read", "write", "nvlink", "atomics"])]
    ["schema", "gpus", "p2p"]

def portSpeed : Schema :=
  { oneOf := some
      [{ type := some (.one "integer"), minimum := some 1 },
       { const := some (Json.str "unknown") }] }

def nicProperties : List (String × Schema) :=
  [("bus_id", busId), ("driver", ofType "string"), ("link_layer", linkLayer),
   ("max_pcie_gen", ofType "integer"), ("max_pcie_width", ofType "integer"),
   ("numa_node", { type := some (.one "integer"), minimum := some (-1) }),
   ("port_speed_mbps", portSpeed)]

def rdmaProperties : List (String × Schema) :=
  [("bus_id", busId), ("device", ofType "string"), ("port", ofType "integer"),
   ("state", ofType "string"), ("link_layer", linkLayer),
   ("active_speed", integerOrString), ("active_width", integerOrString),
   ("gpudirect", ofEnum ["nvidia_peermem", "dmabuf", "none"])]

/-- The schema of nics.json. -/
def nics : Schema :=
  document
    [("schema", { const := some (Json.int 1) }),
     ("rdma_probe", ofEnum ["ok", "unavailable"]),
     ("nics", arrayOf nicProperties
       ["bus_id", "driver", "link_layer", "max_pcie_gen", "max_pcie_width",
        "numa_node", "port_speed_mbps"]),
     ("rdma", arrayOf rdmaProperties
       ["bus_id", "device", "port", "state", "link_layer", "active_speed",
        "active_width", "gpudirect"])]
    ["schema", "rdma_probe", "nics", "rdma"]

/-- The violations of a document. -/
def validate (env : Env) (schema : Schema) (doc : Json) : List SchemaError :=
  check env schema doc ""

/-!
## What an accepted value is
-/

/-- A value that a schema finds nothing wrong with, wherever it stands. -/
def Accepts (env : Env) (schema : Schema) (doc : Json) : Prop :=
  exists path, check env schema doc path = []

section Accepted

variable {env : Env} {schema : Schema} {doc : Json}

theorem check_eq_nil {path : String} (h : check env schema doc path = []) :
    (forall t, schema.type = some t -> TypeSpec.admits doc t = true) ∧
      constErrors env schema.const doc path = [] ∧
      enumErrors env schema.enum doc path = [] ∧
      checkOneOf env schema.oneOf doc path = [] ∧
      patternErrors env schema.pattern doc path = [] ∧
      objectErrors env (fun key value child =>
        checkProperty env schema.properties key value child)
        schema.required schema.additionalProperties doc path = [] ∧
      checkArray env schema.items doc path = [] := by
  obtain ⟨type, const, enum, oneOf, pattern, minimum, maximum, properties, required,
    additionalProperties, items⟩ := schema
  rw [check] at h
  cases htype : type.filter (fun t => !TypeSpec.admits doc t) with
  | some t =>
      rw [htype] at h
      cases h
  | none =>
      rw [htype] at h
      simp only [List.append_eq_nil_iff] at h
      rcases h with ⟨⟨⟨⟨⟨⟨hconst, henum⟩, hone⟩, hpattern⟩, _⟩, hobject⟩, hitems⟩
      refine ⟨?_, hconst, henum, hone, hpattern, hobject, hitems⟩
      intro t ht
      have htype' : type = some t := ht
      rw [htype', Option.filter_eq_none_iff] at htype
      simpa using htype t rfl

theorem Accepts.string (h : Accepts env schema doc)
    (htype : schema.type = some (.one "string")) :
    exists s, doc = Json.str s ∧
      forall p, schema.pattern = some p -> env.regexSearch p s = true := by
  rcases h with ⟨path, h⟩
  have hadmits := (check_eq_nil h).1 _ htype
  have hpattern := (check_eq_nil h).2.2.2.2.1
  cases doc with
  | str s =>
      refine ⟨s, rfl, ?_⟩
      intro p hp
      rw [hp] at hpattern
      unfold patternErrors at hpattern
      by_contra hno
      simp [hno] at hpattern
  | _ => cases hadmits

theorem Accepts.integer (h : Accepts env schema doc)
    (htype : schema.type = some (.one "integer")) : exists n, doc = Json.int n := by
  rcases h with ⟨path, h⟩
  have hadmits := (check_eq_nil h).1 _ htype
  cases doc with
  | int n => exact ⟨n, rfl⟩
  | _ => cases hadmits

theorem Accepts.object (h : Accepts env schema doc)
    (htype : schema.type = some (.one "object")) : exists fields, doc = Json.obj fields := by
  rcases h with ⟨path, h⟩
  have hadmits := (check_eq_nil h).1 _ htype
  cases doc with
  | obj fields => exact ⟨fields, rfl⟩
  | _ => cases hadmits

theorem same_str {s : String} : same env (Json.str s) doc = true <-> doc = Json.str s := by
  cases doc with
  | str t =>
      rw [same, beq_iff_eq, Json.str.injEq]
      exact eq_comm
  | _ => simp [same, Json.isNumber]

theorem same_str_right {s : String} : same env doc (Json.str s) = true <-> doc = Json.str s := by
  cases doc <;> simp [same, Json.isNumber]

theorem Accepts.enum {values : List String} (h : Accepts env (ofEnum values) doc) :
    exists s, s ∈ values ∧ doc = Json.str s := by
  rcases h with ⟨path, h⟩
  have henum := (check_eq_nil h).2.2.1
  unfold enumErrors ofEnum at henum
  simp only at henum
  split_ifs at henum with hany
  rcases List.any_eq_true.mp hany with ⟨v, hv, hsame⟩
  rcases List.mem_map.mp hv with ⟨s, hs, rfl⟩
  exact ⟨s, hs, same_str.mp hsame⟩

theorem Accepts.const {s : String} (h : Accepts env schema doc)
    (hconst : schema.const = some (Json.str s)) : doc = Json.str s := by
  rcases h with ⟨path, h⟩
  have herrors := (check_eq_nil h).2.1
  rw [hconst] at herrors
  unfold constErrors at herrors
  simp only at herrors
  split_ifs at herrors with hsame
  exact same_str_right.mp hsame

theorem exists_branch {branches : List Schema} {path : String}
    (h : 0 < ((checkBranches env branches doc path).filter List.isEmpty).length) :
    exists branch, branch ∈ branches ∧ check env branch doc path = [] := by
  induction branches with
  | nil =>
      rw [checkBranches] at h
      simp at h
  | cons branch rest ih =>
      rw [checkBranches] at h
      cases hb : check env branch doc path with
      | nil => exact ⟨branch, List.mem_cons_self, hb⟩
      | cons e es =>
          rw [hb] at h
          rcases ih (by simpa using h) with ⟨b, hmem, hcheck⟩
          exact ⟨b, List.mem_cons_of_mem branch hmem, hcheck⟩

theorem fewest_ne_nil {branches : List (List SchemaError)} (hne : branches ≠ [])
    (h : forall e, e ∈ branches -> e ≠ []) : fewest branches ≠ [] := by
  cases branches with
  | nil => exact absurd rfl hne
  | cons e rest =>
      have hfold : forall (rest : List (List SchemaError)) (e : List SchemaError),
          e ≠ [] -> (forall e', e' ∈ rest -> e' ≠ []) ->
          rest.foldl (fun best errors =>
            if errors.length < best.length then errors else best) e ≠ [] := by
        intro rest
        induction rest with
        | nil =>
            intro e he _
            exact he
        | cons d rest ih =>
            intro e he hrest
            rw [List.foldl_cons]
            apply ih
            · split_ifs
              · exact hrest d List.mem_cons_self
              · exact he
            · intro e' he'
              exact hrest e' (List.mem_cons_of_mem d he')
      exact hfold rest e (h e List.mem_cons_self)
        (fun e' he' => h e' (List.mem_cons_of_mem e he'))

theorem checkBranches_length (env : Env) (branches : List Schema) (doc : Json)
    (path : String) : (checkBranches env branches doc path).length = branches.length := by
  induction branches with
  | nil =>
      rw [checkBranches]
      rfl
  | cons branch rest ih =>
      rw [checkBranches, List.length_cons, List.length_cons, ih]

/-- A value accepted by a oneOf is accepted by one of its branches. -/
theorem Accepts.oneOf {branches : List Schema} (h : Accepts env schema doc)
    (hone : schema.oneOf = some branches) (hne : branches ≠ []) :
    exists branch, branch ∈ branches ∧ Accepts env branch doc := by
  rcases h with ⟨path, h⟩
  have herrors := (check_eq_nil h).2.2.2.1
  rw [hone, checkOneOf] at herrors
  by_cases hpass :
      0 < ((checkBranches env branches doc path).filter List.isEmpty).length
  · rcases exists_branch hpass with ⟨branch, hmem, hcheck⟩
    exact ⟨branch, hmem, path, hcheck⟩
  · exfalso
    unfold oneOfErrors at herrors
    have hzero :
        ((checkBranches env branches doc path).filter List.isEmpty).length = 0 := by
      omega
    have hempty := List.length_eq_zero_iff.mp hzero
    rw [List.filter_eq_nil_iff] at hempty
    simp only [hzero, Nat.zero_ne_one, if_false, gt_iff_lt] at herrors
    refine fewest_ne_nil ?_ ?_ herrors
    · have hlen := checkBranches_length env branches doc path
      cases hb : checkBranches env branches doc path with
      | nil =>
          rw [hb] at hlen
          exact absurd (List.length_eq_zero_iff.mp hlen.symm) hne
      | cons e es =>
          have he := hempty e (by rw [hb]; exact List.mem_cons_self)
          simp [he]
    · intro e he
      rw [List.mem_filter] at he
      simpa using he.2

theorem checkProperty_eq_some {properties : List (String × Schema)} {key : String}
    {value : Json} {path : String} {sub : Schema}
    (h : OrdMap.lookup key properties = some sub) :
    checkProperty env properties key value path = some (check env sub value path) := by
  induction properties with
  | nil =>
      cases h
  | cons property rest ih =>
      obtain ⟨name, s⟩ := property
      rw [OrdMap.lookup] at h
      rw [checkProperty]
      split_ifs at h with hname
      · have hs : s = sub := Option.some_inj.mp h
        rw [if_pos hname, hs]
      · rw [if_neg hname]
        exact ih h

theorem checkProperty_eq_none {properties : List (String × Schema)} {key : String}
    {value : Json} {path : String} (h : checkProperty env properties key value path = none) :
    OrdMap.lookup key properties = none := by
  cases hfound : OrdMap.lookup key properties with
  | none => rfl
  | some sub =>
      rw [checkProperty_eq_some hfound] at h
      cases h

/-- A member of an accepted object obeys the schema of its property. -/
theorem Accepts.member_of_get? (h : Accepts env schema doc) {key : String}
    {value : Json} (hget : doc.get? key = some value) {sub : Schema}
    (hsub : OrdMap.lookup key schema.properties = some sub) : Accepts env sub value := by
  rcases h with ⟨path, h⟩
  have hobject := (check_eq_nil h).2.2.2.2.2.1
  cases doc with
  | obj fields =>
      unfold objectErrors at hobject
      simp only [List.append_eq_nil_iff, List.flatMap_eq_nil_iff] at hobject
      have hmember := hobject.2 (key, value) (OrdMap.mem_of_lookup hget)
      rw [checkProperty_eq_some hsub] at hmember
      exact ⟨_, hmember⟩
  | _ => cases hget

/-- An accepted object has its required members. -/
theorem Accepts.required (h : Accepts env schema doc)
    (htype : schema.type = some (.one "object")) {key : String}
    (hkey : key ∈ schema.required) : exists value, doc.get? key = some value := by
  rcases h.object htype with ⟨fields, rfl⟩
  rcases h with ⟨path, h⟩
  have hobject := (check_eq_nil h).2.2.2.2.2.1
  unfold objectErrors requiredErrors at hobject
  simp only [List.append_eq_nil_iff, List.flatMap_eq_nil_iff] at hobject
  have hrequired := hobject.1 key hkey
  split_ifs at hrequired with hcontains
  exact Option.isSome_iff_exists.mp hcontains

theorem Accepts.member (h : Accepts env schema doc)
    (htype : schema.type = some (.one "object")) {key : String}
    (hkey : key ∈ schema.required) {sub : Schema}
    (hsub : OrdMap.lookup key schema.properties = some sub) :
    exists value, doc.get? key = some value ∧ Accepts env sub value := by
  rcases h.required htype hkey with ⟨value, hget⟩
  exact ⟨value, hget, h.member_of_get? hget hsub⟩

/-- The elements of an accepted array obey the schema of the items. -/
theorem Accepts.items (h : Accepts env schema doc)
    (htype : schema.type = some (.one "array")) {sub : Schema}
    (hsub : schema.items = some sub) :
    exists xs, doc = Json.arr xs ∧ forall x, x ∈ xs -> Accepts env sub x := by
  rcases h with ⟨path, h⟩
  have hadmits := (check_eq_nil h).1 _ htype
  have harray := (check_eq_nil h).2.2.2.2.2.2
  cases doc with
  | arr xs =>
      refine ⟨xs, rfl, ?_⟩
      intro x hx
      rw [hsub, checkArray] at harray
      simp only [List.flatMap_eq_nil_iff] at harray
      rcases List.mem_iff_getElem?.mp hx with ⟨i, hi⟩
      exact ⟨_, harray (x, i) (List.mem_zipIdx_iff_getElem?.mpr hi)⟩
  | _ => cases hadmits

end Accepted

end Schema
end Topology
end Ostia

import Ostia.Dev.PairFile
import Ostia.Foundation.Sorting

/-!
# The manifest of a capture

The consumer's side of the capture contract.  A manifest is read strictly, checked against its
schema and then against what a capture that may be used must say; the files that it lists must
be the regular files of the directory, with their hashes.
-/

namespace Ostia
namespace Dev
namespace Manifest

open Foundation
open JsonText (FloatText scanString unsigned literal skip)

/-- Why a manifest or a directory is not accepted. -/
inductive Refusal where
  /-- CaptureRejected, with its reason. -/
  | rejected (reason : String)
  /-- The jsonschema package is not installed. -/
  | infra
  | exn (e : Exn)

def SUPPORTED : Int := 1

def FILES : List String := ["hwloc.xml", "nvml.json", "nics.json", "links.json", "meta.json"]

/-- Written next to the data files and never listed in `files`. -/
def UNLISTED : List String := ["manifest.json", "diagnostics.txt", "status.json"]

/-- Every capture that did not fail has these. -/
def ALWAYS : List String := ["hwloc.xml", "nics.json", "meta.json"]

def MAX_MANIFEST_BYTES : Nat := 1024 * 1024

variable {F : Type} [FloatText F]

/--
What the consumer has from its packages and its interpreter: the violations that jsonschema
finds, each with its path and its keyword, or nothing when it is not installed; the text of a
number, a hash, and whether the reader raises RecursionError on a text.
-/
structure Python (F : Type) where
  violations : Value F -> Option (List (String × String))
  str : Value F -> String
  sha256 : Content -> String
  tooDeep : String -> Bool

/-!
## Strict reading
-/

def notJson : Refusal := .rejected "manifest.json is not UTF-8 JSON"

/-- The entries of an object, none of them twice. -/
def noDuplicates (fields : List (String × Value F)) : Except Refusal (Value F) :=
  if (fields.map Prod.fst).Nodup then .ok (.dict fields)
  else .error (.rejected "manifest.json repeats a key")

/-- A value that is no container and no string; the constants of JavaScript are refused. -/
def scalar (cs : List Char) : Except Refusal (Value F × List Char) :=
  match literal "NaN" cs, literal "Infinity" cs, literal "-Infinity" cs with
  | none, none, none =>
      match JsonText.scalar cs with
      | .ok r => .ok r
      | .error _ => .error notJson
  | _, _, _ =>
      .error (.rejected "manifest.json holds NaN or Infinity, which JSON does not allow")

mutual

/-- Scan one value; the fuel bounds the steps. -/
def value : Nat -> List Char -> Except Refusal (Value F × List Char)
  | 0, _ => .error notJson
  | fuel + 1, cs =>
      match cs with
      | '"' :: r =>
          match scanString r with
          | some (s, rest) => .ok (.str s, rest)
          | none => .error notJson
      | '[' :: r =>
          match skip r with
          | ']' :: rest => .ok (.list [], rest)
          | r' => items fuel [] r'
      | '\x7b' :: r =>
          match skip r with
          | '\x7d' :: rest => .ok (.dict [], rest)
          | r' => members fuel [] r'
      | cs => scalar cs

def items : Nat -> List (Value F) -> List Char -> Except Refusal (Value F × List Char)
  | 0, _, _ => .error notJson
  | fuel + 1, seen, cs => do
      let (v, r) ← value fuel cs
      match skip r with
      | ',' :: r' => items fuel (seen ++ [v]) (skip r')
      | ']' :: rest => pure (.list (seen ++ [v]), rest)
      | _ => .error notJson

def members : Nat -> List (String × Value F) -> List Char ->
    Except Refusal (Value F × List Char)
  | 0, _, _ => .error notJson
  | fuel + 1, seen, cs =>
      match cs with
      | '"' :: r =>
          match scanString r with
          | none => .error notJson
          | some (key, r1) =>
              match skip r1 with
              | ':' :: r2 => do
                  let (v, r3) ← value fuel (skip r2)
                  match skip r3 with
                  | ',' :: r4 => members fuel (seen ++ [(key, v)]) (skip r4)
                  | '\x7d' :: rest =>
                      let dict ← noDuplicates (seen ++ [(key, v)])
                      pure (dict, rest)
                  | _ => .error notJson
              | _ => .error notJson
      | _ => .error notJson

end

def parse (py : Python F) (raw : Content) : Except Refusal (Value F) :=
  match raw with
  | .other _ => .error notJson
  | .utf8 text =>
      if py.tooDeep text then .error notJson
      else
        match value (2 * text.length + 2) (skip text.toList) with
        | .error e => .error e
        | .ok (v, rest) => if skip rest = [] then .ok v else .error notJson

/-!
## The schema
-/

/-- The keywords that the schema of manifests uses; one that is absent is empty. -/
structure Draft (F : Type) where
  type : List String := []
  const : Option (Value F) := none
  enum : Option (List (Value F)) := none
  pattern : Option String := none
  properties : List (String × Draft F) := []
  required : List String := []
  additionalProperties : Bool := true
  items : Option (Draft F) := none

namespace Draft

def isType (v : Value F) : String -> Bool
  | "object" => v.isDict
  | "string" => v.isStr
  | "array" => match v with
      | .list _ => true
      | _ => false
  | "boolean" => match v with
      | .bool _ => true
      | _ => false
  | "null" => match v with
      | .none => true
      | _ => false
  | _ => false

/-- Equality of values; a truth value is no number. -/
def same : Value F -> Value F -> Bool
  | .bool a, .bool b => a == b
  | .bool _, _ => false
  | _, .bool _ => false
  | v, w => v.eq w

/-- The keywords that look at one value. -/
def validScalar (search : String -> String -> Bool) (s : Draft F) (v : Value F) : Bool :=
  (s.type.isEmpty || s.type.any (isType v)) &&
    (s.const.all fun c => same v c) && (s.enum.all fun vs => vs.any (same v)) &&
    s.pattern.all fun p =>
      match v with
      | .str t => search p t
      | _ => true

/-- The keywords that look at the parts of a value. -/
def validParts (required : List String) (property : String -> Value F -> Bool)
    (item : Value F -> Bool) : Value F -> Bool
  | .dict fields =>
      required.all (fun name => (Value.lookup name fields).isSome) &&
        fields.all fun field => property field.1 field.2
  | .list xs => xs.all item
  | _ => true

mutual

/-- Whether a value is an instance of a schema. -/
def valid (search : String -> String -> Bool) : Draft F -> Value F -> Bool
  | ⟨type, const, enum, pattern, properties, required, additionalProperties, items⟩, v =>
      validScalar search ⟨type, const, enum, pattern, [], [], true, none⟩ v &&
        validParts required
          (fun key w => validProperty search properties additionalProperties key w)
          (fun w => validItem search items w) v

/-- A member is judged by the schema of its property. -/
def validProperty (search : String -> String -> Bool) :
    List (String × Draft F) -> Bool -> String -> Value F -> Bool
  | [], additionalProperties, _, _ => additionalProperties
  | (name, s) :: rest, additionalProperties, key, v =>
      if name = key then valid search s v
      else validProperty search rest additionalProperties key v

def validItem (search : String -> String -> Bool) : Option (Draft F) -> Value F -> Bool
  | none, _ => true
  | some s, v => valid search s v

end

end Draft

def hashPattern : String := "^sha256:[0-9a-f]{64}$"

def hashSchema : Draft F := { type := ["string"], pattern := some hashPattern }

def textSchema : Draft F := { type := ["string"] }

/-- An array of objects with two texts. -/
def pairsSchema (first second : String) : Draft F :=
  { type := ["array"]
    items := some
      { type := ["object"]
        properties := [(first, textSchema), (second, textSchema)]
        required := [first, second]
        additionalProperties := false } }

def texts (names : List String) : List (Value F) := names.map Value.str

/-- The schema of manifest.json. -/
def schema : Draft F :=
  { type := ["object"]
    properties :=
      [("schema", { const := some (.int 1) }),
        ("tool_version", textSchema),
        ("status", { enum := some (texts ["complete", "partial", "failed"]) }),
        ("sanitized", { type := ["boolean"] }),
        ("leak_check", { enum := some (texts ["not_run", "passed", "failed"]) }),
        ("topology_id",
          { type := ["string", "null"], pattern := some "^topo1:sha256:[0-9a-f]{64}$" }),
        ("files",
          { type := ["object"]
            properties := FILES.map fun name => (name, hashSchema)
            additionalProperties := false }),
        ("missing", pairsSchema "file" "reason"),
        ("errors", pairsSchema "code" "message")]
    required := ["schema", "tool_version", "status", "sanitized", "leak_check", "topology_id",
      "files", "missing", "errors"]
    additionalProperties := false }

/-!
## What the consumer checks
-/

/-- The first violation in the order of the paths. -/
def first : List (String × String) -> Option (String × String)
  | [] => none
  | e :: rest => some (rest.foldl (fun best e => if e.1 < best.1 then e else best) e)

def isNumber : Value F -> Bool
  | .int _ => true
  | .float _ => true
  | _ => false

def checkVersion (py : Python F) (doc : Value F) : Except Refusal Unit :=
  match doc with
  | .dict fields =>
      let version := (Value.lookup "schema" fields).getD .none
      if isNumber version && version.differs (.int SUPPORTED) then
        .error (.rejected ("manifest.json has unsupported schema " ++ py.str version ++
          " (supported: " ++ toString SUPPORTED ++ ")"))
      else .ok ()
  | _ => .error (.rejected "manifest.json is not a JSON object")

def validate (py : Python F) (doc : Value F) : Except Refusal Unit := do
  checkVersion py doc
  match py.violations doc with
  | none => .error .infra
  | some found =>
      match first found with
      | none => .ok ()
      | some e =>
          .error (.rejected ("manifest.json does not match its schema at " ++ e.1 ++ " (" ++ e.2 ++
            ")"))

def ofExn {A : Type} (r : Except Exn A) : Except Refusal A := r.mapError .exn

def refuseIf (c : Bool) (reason : String) : Except Refusal Unit :=
  if c then .error (.rejected reason) else .ok ()

def raiseIf (c : Bool) (e : Exn) : Except Refusal Unit := if c then .error (.exn e) else .ok ()

/-- Whether the files of a manifest name one that the contract has not. -/
def namesOther (files : Option (Value F)) : Bool :=
  match files with
  | some (.dict fields) => fields.any fun e => !FILES.contains e.1
  | _ => false

/-- A file that every capture has must be listed. -/
def checkListed (files : Value F) : List String -> Except Refusal Unit
  | [] => .ok ()
  | name :: rest => do
      let listed ← ofExn (files.contains name)
      refuseIf (!listed) ("manifest.json does not list " ++ name)
      checkListed files rest

/-- The manifest in some bytes, if a consumer may use the capture that it describes. -/
def checkManifest (py : Python F) (raw : Content) : Except Refusal (Value F) := do
  let doc ← parse py raw
  checkVersion py doc
  let files ← ofExn (doc.get "files")
  refuseIf (namesOther files)
    ("manifest.json lists a file outside " ++ ", ".intercalate FILES)
  validate py doc
  let status ← ofExn (doc.item "status")
  refuseIf (status.eq (.str "failed"))
    "the capture failed (status failed); its diagnostics.txt says why"
  let sanitized ← ofExn (doc.item "sanitized")
  refuseIf (!sanitized.truthy) "the capture is not sanitized (sanitized false)"
  let leakCheck ← ofExn (doc.item "leak_check")
  refuseIf (leakCheck.differs (.str "passed"))
    ("the leak check did not pass (leak_check " ++ py.str leakCheck ++ ")")
  let topologyId ← ofExn (doc.item "topology_id")
  refuseIf (Draft.isType topologyId "null") "manifest.json has no topology_id"
  let listed ← ofExn (doc.item "files")
  checkListed listed ALWAYS
  pure doc

/-!
## The files of a directory
-/

/-- What stands at a name of a directory. -/
inductive Entry where
  | file (bytes : Content)
  | symlink
  /-- A directory or a device. -/
  | other

/-- The faults of the local machine when a directory is checked. -/
structure Faults where
  scan : Bool
  openFails : String -> Bool
  readFails : String -> Bool

def readRegular (faults : Faults) (entries : List (String × Entry)) (name : String) :
    Except Refusal Content :=
  match entries.find? fun e => e.1 == name with
  | none => .error (.rejected (name ++ " is missing"))
  | some (_, entry) =>
      if faults.openFails name then
        .error (.rejected (name ++ " is a symlink or cannot be opened"))
      else
        match entry with
        | .symlink => .error (.rejected (name ++ " is a symlink or cannot be opened"))
        | .other => .error (.rejected (name ++ " is not a regular file"))
        | .file bytes => if faults.readFails name then .error (.exn .osError) else .ok bytes

def checkRegular : List (String × Entry) -> Except Refusal Unit
  | [] => .ok ()
  | (_, .file _) :: rest => checkRegular rest
  | (name, _) :: _ => .error (.rejected (name ++ " is not a regular file"))

/-- The digest that the manifest should give for some bytes. -/
def digestOf (py : Python F) (bytes : Content) : Value F := .str ("sha256:" ++ py.sha256 bytes)

def checkDigests (py : Python F) (faults : Faults) (entries : List (String × Entry)) :
    List (String × Value F) -> Except Refusal Unit
  | [] => .ok ()
  | (name, digest) :: rest => do
      let bytes ← readRegular faults entries name
      refuseIf ((digestOf py bytes).differs digest)
        (name ++ " does not match its sha256 in manifest.json")
      checkDigests py faults entries rest

/-- The entries of a dictionary in the order of their names. -/
def sortedFields (fields : List (String × Value F)) : List (String × Value F) :=
  Sorting.stableSort Prod.fst fields

/-- Whether a directory holds the files that the manifest lists, with their hashes, and at most
the unlisted ones besides. -/
def verifyDir (py : Python F) (faults : Faults) (entries : List (String × Entry))
    (manifest : Value F) : Except Refusal Unit := do
  match ← ofExn (manifest.item "files") with
  | .dict listed =>
      raiseIf faults.scan .osError
      let unexpected := (entries.filter fun e =>
        !((listed.map Prod.fst ++ UNLISTED).contains e.1)).length
      refuseIf (decide (unexpected ≠ 0))
        ("the capture holds " ++ toString unexpected ++ " unexpected entries")
      checkRegular entries
      checkDigests py faults entries (sortedFields listed)
  | _ => .error (.exn .attributeError)

/-- The number of bytes. -/
def size : Content -> Nat
  | .utf8 text => text.utf8ByteSize
  | .other bytes => bytes.length

/-- The manifest of a capture after every check; nothing but a directory has entries. -/
def accept (py : Python F) (faults : Faults) (capture : Option (List (String × Entry))) :
    Except Refusal (Value F) :=
  match capture with
  | none => .error (.rejected "the capture is not a directory")
  | some entries => do
      let raw ← readRegular faults entries "manifest.json"
      refuseIf (decide (MAX_MANIFEST_BYTES < size raw))
        ("manifest.json is larger than " ++ toString MAX_MANIFEST_BYTES ++ " bytes")
      let doc ← checkManifest py raw
      verifyDir py faults entries doc
      pure doc

/-!
## What the schema says
-/

namespace Draft

variable {search : String -> String -> Bool}

/-- An instance of a closed object schema is a dictionary with the required members, each of
which obeys its property. -/
theorem valid_object {s : Draft F} {v : Value F} (htype : s.type = ["object"])
    (h : valid search s v = true) :
    exists fields, v = .dict fields ∧
      (forall name, name ∈ s.required -> exists w, Value.lookup name fields = some w) ∧
      forall key w, Value.lookup key fields = some w ->
        validProperty search s.properties s.additionalProperties key w = true := by
  cases s with
  | mk type const enum pattern properties required additionalProperties items =>
      subst htype
      rw [valid, Bool.and_eq_true] at h
      obtain ⟨hscalar, hmembers⟩ := h
      have hdict : v.isDict = true := by
        unfold validScalar at hscalar
        rw [Bool.and_eq_true, Bool.and_eq_true, Bool.and_eq_true] at hscalar
        simpa [isType] using hscalar.1.1.1
      cases v with
      | dict fields =>
          rw [validParts, Bool.and_eq_true, List.all_eq_true, List.all_eq_true] at hmembers
          refine ⟨fields, rfl, ?_, ?_⟩
          · intro name hname
            exact Option.isSome_iff_exists.mp (hmembers.1 name hname)
          · intro key w hw
            exact hmembers.2 (key, w) (Value.mem_of_lookup hw)
      | none => cases hdict
      | bool b => cases hdict
      | int n => cases hdict
      | float x => cases hdict
      | str t => cases hdict
      | list xs => cases hdict

theorem scalar_of_valid {s : Draft F} {v : Value F} (h : valid search s v = true) :
    validScalar search ⟨s.type, s.const, s.enum, s.pattern, [], [], true, none⟩ v = true := by
  cases s with
  | mk type const enum pattern properties required additionalProperties items =>
      rw [valid, Bool.and_eq_true] at h
      exact h.1

theorem same_str {v : Value F} {t : String} (h : same v (.str t) = true) : v = .str t := by
  cases v with
  | str s =>
      have hst : s = t := by simpa [same, Value.eq] using h
      rw [hst]
  | none => cases h
  | bool b => cases h
  | int n => cases h
  | float x => cases h
  | list xs => cases h
  | dict fs => cases h

end Draft

/-- The validator reports no violation exactly of the instances of the schema, for some meaning
of the patterns. -/
def Validates (py : Python F) (search : String -> String -> Bool) : Prop :=
  forall doc found, py.violations doc = some found ->
    (found = [] <-> Draft.valid search schema doc = true)

/-- What a manifest says whose capture may be used, and the files that it lists. -/
structure Usable (doc : Value F) (listed : List (String × Value F)) : Prop where
  schema : exists version, doc.item "schema" = .ok version ∧ version.eq (.int SUPPORTED) = true
  status : exists status, doc.item "status" = .ok (.str status) ∧ status ≠ "failed"
  sanitized : doc.item "sanitized" = .ok (.bool true)
  leakCheck : doc.item "leak_check" = .ok (.str "passed")
  topologyId : exists id, doc.item "topology_id" = .ok (.str id)
  files : doc.item "files" = .ok (.dict listed)
  known : forall e, e ∈ listed -> e.1 ∈ FILES
  always : forall name, name ∈ ALWAYS -> exists digest, Value.lookup name listed = some digest

theorem eq_str_iff {v : Value F} {t : String} : v.eq (.str t) = true <-> v = .str t := by
  cases v with
  | str s => simp [Value.eq]
  | none => simp [Value.eq, Value.eqNumber, Value.number?]
  | bool b => simp [Value.eq, Value.eqNumber, Value.number?]
  | int n => simp [Value.eq, Value.eqNumber, Value.number?]
  | float x => simp [Value.eq, Value.eqNumber, Value.number?]
  | list xs => simp [Value.eq, Value.eqNumber, Value.number?]
  | dict fs => simp [Value.eq, Value.eqNumber, Value.number?]

theorem refuseIf_eq_ok {c : Bool} {reason : String} {u : Unit}
    (h : refuseIf c reason = .ok u) : c = false := by
  cases c with
  | false => rfl
  | true => cases h

omit [FloatText F] in
theorem checkListed_eq_ok {fields : List (String × Value F)} {names : List String} {u : Unit}
    (h : checkListed (.dict fields) names = .ok u) :
    forall name, name ∈ names -> exists digest, Value.lookup name fields = some digest := by
  induction names with
  | nil =>
      intro name hname
      cases hname
  | cons head rest ih =>
      rw [checkListed, Fallible.bind_eq_ok] at h
      obtain ⟨listed, hlisted, h⟩ := h
      rw [Fallible.bind_eq_ok] at h
      obtain ⟨_, hrefuse, h⟩ := h
      rw [List.forall_mem_cons]
      constructor
      · cases Fallible.eq_ok_of_mapError hlisted
        exact Option.isSome_iff_exists.mp (by simpa using refuseIf_eq_ok hrefuse)
      · exact ih h

theorem first_eq_none {found : List (String × String)} (h : first found = none) : found = [] := by
  cases found with
  | nil => rfl
  | cons e rest => cases h

theorem validate_eq_ok {py : Python F} {search : String -> String -> Bool}
    (hpy : Validates py search) {doc : Value F} {u : Unit} (h : validate py doc = .ok u) :
    Draft.valid search schema doc = true := by
  rw [validate, Fallible.bind_eq_ok] at h
  obtain ⟨_, _, h⟩ := h
  cases hviolations : py.violations doc with
  | none =>
      rw [hviolations] at h
      cases h
  | some found =>
      rw [hviolations] at h
      apply (hpy doc found hviolations).mp
      apply first_eq_none
      cases hfirst : first found with
      | none => rfl
      | some e =>
          simp only [hfirst] at h
          cases h

omit [FloatText F] in
theorem item_of_lookup {fields : List (String × Value F)} {key : String} {v : Value F}
    (h : Value.lookup key fields = some v) : (Value.dict fields).item key = .ok v := by
  rw [Value.item, h]

omit [FloatText F] in
theorem lookup_of_item {fields : List (String × Value F)} {key : String} {v : Value F}
    (h : (Value.dict fields).item key = .ok v) : Value.lookup key fields = some v := by
  rw [Value.item] at h
  cases hlookup : Value.lookup key fields with
  | none =>
      rw [hlookup] at h
      cases h
  | some w =>
      rw [hlookup] at h
      cases h
      rfl

theorem eq_of_not_differs {v w : Value F} (h : v.differs w = false) : v.eq w = true := by
  unfold Value.differs at h
  rw [Bool.or_eq_false_iff, Bool.not_eq_false'] at h
  exact h.2

theorem eq_of_same_int {v : Value F} {n : Int} (h : Draft.same v (.int n) = true) :
    v.eq (.int n) = true := by
  cases v with
  | bool b => cases h
  | none => exact h
  | int m => exact h
  | float x => exact h
  | str s => exact h
  | list xs => exact h
  | dict fs => exact h

/-- A manifest that passes every check may be used. -/
theorem checkManifest_usable {py : Python F} {search : String -> String -> Bool}
    (hpy : Validates py search) {raw : Content} {doc : Value F}
    (h : checkManifest py raw = .ok doc) :
    parse py raw = .ok doc ∧ exists files, Usable doc files := by
  simp only [checkManifest, Fallible.bind_eq_ok] at h
  obtain ⟨doc', hparse, _, _, files, hfiles, _, hother, _, hvalidate, status, hstatus, _, hfailed,
    sanitized, hsanitized, _, htruthy, leakCheck, hleak, _, hpassed, topologyId, htopology, _,
    hnull, listed, hlisted, _, halways, hdoc⟩ := h
  cases hdoc
  refine ⟨hparse, ?_⟩
  obtain ⟨fields, rfl, hrequired, hproperty⟩ :=
    Draft.valid_object rfl (validate_eq_ok hpy hvalidate)
  -- What the schema says of a member that the checks look at.
  have hmember : forall (name : String) (s : Draft F) v, (Value.dict fields).item name = .ok v ->
      Draft.validProperty search (schema (F := F)).properties false name v =
        Draft.valid search s v ->
      Draft.validScalar search ⟨s.type, s.const, s.enum, s.pattern, [], [], true, none⟩ v =
        true := by
    intro name s v hv hs
    have hvalid := hproperty name v (lookup_of_item hv)
    exact Draft.scalar_of_valid (hs.symm.trans hvalid)
  have hversion : exists version, (Value.dict fields).item "schema" = .ok version ∧
      version.eq (.int SUPPORTED) = true := by
    obtain ⟨version, hlookup⟩ := hrequired "schema" (by simp [schema])
    have hitem := item_of_lookup hlookup
    have hvalid := hmember "schema" { const := some (.int 1) } version hitem rfl
    have hsame : Draft.same version (.int 1) = true := by
      simpa [Draft.validScalar] using hvalid
    exact ⟨version, hitem, eq_of_same_int hsame⟩
  have hstatusText : exists text, status = .str text ∧ text ≠ "failed" := by
    have hvalid := hmember "status"
      { enum := some (texts ["complete", "partial", "failed"]) } status
      (Fallible.eq_ok_of_mapError hstatus) rfl
    have hsame : exists text, Draft.same status (.str text) = true := by
      simp only [Draft.validScalar, texts, List.map_cons, List.map_nil, Option.all_some,
        Option.all_none, List.any_cons, List.any_nil, List.isEmpty_nil,
        Bool.and_true, Bool.true_and, Bool.or_false, Bool.or_eq_true] at hvalid
      rcases hvalid with h | h | h
      · exact ⟨_, h⟩
      · exact ⟨_, h⟩
      · exact ⟨_, h⟩
    obtain ⟨text, hsame⟩ := hsame
    have htext := Draft.same_str hsame
    refine ⟨text, htext, ?_⟩
    intro hbad
    rw [htext, hbad] at hfailed
    have heq := refuseIf_eq_ok hfailed
    rw [eq_str_iff.mpr rfl] at heq
    cases heq
  have hbool : sanitized = .bool true := by
    have hvalid := hmember "sanitized" { type := ["boolean"] } sanitized
      (Fallible.eq_ok_of_mapError hsanitized) rfl
    have htrue : sanitized.truthy = true := by simpa using refuseIf_eq_ok htruthy
    cases sanitized with
    | bool b => rw [show b = true from htrue]
    | none => cases hvalid
    | int n => cases hvalid
    | float x => cases hvalid
    | str t => cases hvalid
    | list xs => cases hvalid
    | dict fs => cases hvalid
  have hid : exists id, topologyId = .str id := by
    have hvalid := hmember "topology_id"
      { type := ["string", "null"], pattern := some "^topo1:sha256:[0-9a-f]{64}$" } topologyId
      (Fallible.eq_ok_of_mapError htopology) rfl
    cases topologyId with
    | str t => exact ⟨t, rfl⟩
    | none => cases refuseIf_eq_ok hnull
    | bool b => cases hvalid
    | int n => cases hvalid
    | float x => cases hvalid
    | list xs => cases hvalid
    | dict fs => cases hvalid
  have hdict : exists files, listed = .dict files := by
    have hvalid := hmember "files"
      { type := ["object"]
        properties := FILES.map fun name => (name, hashSchema)
        additionalProperties := false } listed (Fallible.eq_ok_of_mapError hlisted) rfl
    cases listed with
    | dict fs => exact ⟨fs, rfl⟩
    | str t => cases hvalid
    | none => cases hvalid
    | bool b => cases hvalid
    | int n => cases hvalid
    | float x => cases hvalid
    | list xs => cases hvalid
  obtain ⟨text, rfl, hnotFailed⟩ := hstatusText
  obtain ⟨id, rfl⟩ := hid
  obtain ⟨fs, rfl⟩ := hdict
  subst hbool
  exists fs
  constructor
  · exact hversion
  · exact ⟨text, Fallible.eq_ok_of_mapError hstatus, hnotFailed⟩
  · exact Fallible.eq_ok_of_mapError hsanitized
  · rw [Fallible.eq_ok_of_mapError hleak,
      eq_str_iff.mp (eq_of_not_differs (refuseIf_eq_ok hpassed))]
  · exact ⟨id, Fallible.eq_ok_of_mapError htopology⟩
  · exact Fallible.eq_ok_of_mapError hlisted
  · intro e he
    have hget : (Value.dict fields).get "files" = .ok (some (.dict fs)) := by
      rw [Value.get, lookup_of_item (Fallible.eq_ok_of_mapError hlisted)]
    rw [Fallible.eq_ok_of_mapError hfiles] at hget
    cases hget
    have hall := refuseIf_eq_ok hother
    rw [namesOther, List.any_eq_false] at hall
    simpa using hall e he
  · exact checkListed_eq_ok halways

/-!
## What a checked directory holds
-/

theorem eq_digestOf {py : Python F} {bytes : Content} {digest : Value F}
    (h : (digestOf py bytes).differs digest = false) : digest = digestOf py bytes := by
  have heq := eq_of_not_differs h
  unfold digestOf at heq ⊢
  cases digest with
  | str t => exact (eq_str_iff.mp heq).symm
  | none => cases heq
  | bool b => cases heq
  | int n => cases heq
  | float x => cases heq
  | list xs => cases heq
  | dict fs => cases heq

theorem readRegular_eq_ok {faults : Faults} {entries : List (String × Entry)} {name : String}
    {bytes : Content} (h : readRegular faults entries name = .ok bytes) :
    (name, .file bytes) ∈ entries := by
  unfold readRegular at h
  cases hfind : entries.find? fun e => e.1 == name with
  | none =>
      rw [hfind] at h
      cases h
  | some e =>
      obtain ⟨name', entry⟩ := e
      have hname : name' = name := by simpa using List.find?_some hfind
      rw [hfind] at h
      cases entry with
      | symlink =>
          simp only at h
          split_ifs at h
      | other =>
          simp only at h
          split_ifs at h
      | file content =>
          simp only at h
          split_ifs at h
          cases h
          rw [<- hname]
          exact List.mem_of_find?_eq_some hfind

theorem checkDigests_eq_ok {py : Python F} {faults : Faults} {entries : List (String × Entry)}
    {listed : List (String × Value F)} {u : Unit}
    (h : checkDigests py faults entries listed = .ok u) :
    forall e, e ∈ listed -> exists bytes, (e.1, .file bytes) ∈ entries ∧
      e.2 = digestOf py bytes := by
  induction listed with
  | nil =>
      intro e he
      cases he
  | cons e rest ih =>
      obtain ⟨name, digest⟩ := e
      simp only [checkDigests, Fallible.bind_eq_ok] at h
      obtain ⟨bytes, hbytes, _, hdigest, hrest⟩ := h
      rw [List.forall_mem_cons]
      constructor
      · exact ⟨bytes, readRegular_eq_ok hbytes, eq_digestOf (refuseIf_eq_ok hdigest)⟩
      · exact ih hrest

theorem checkRegular_eq_ok {entries : List (String × Entry)} {u : Unit}
    (h : checkRegular entries = .ok u) :
    forall e, e ∈ entries -> exists bytes, e.2 = .file bytes := by
  induction entries with
  | nil =>
      intro e he
      cases he
  | cons e rest ih =>
      obtain ⟨name, entry⟩ := e
      cases entry with
      | symlink => cases h
      | other => cases h
      | file bytes =>
          rw [List.forall_mem_cons]
          exact ⟨⟨bytes, rfl⟩, ih h⟩

/-- A directory that is accepted for the files that a manifest lists. -/
structure Verified (py : Python F) (entries : List (String × Entry))
    (listed : List (String × Value F)) : Prop where
  named : forall e, e ∈ entries -> e.1 ∈ listed.map Prod.fst ++ UNLISTED
  regular : forall e, e ∈ entries -> exists bytes, e.2 = .file bytes
  hashed : forall e, e ∈ listed -> exists bytes, (e.1, .file bytes) ∈ entries ∧
    e.2 = digestOf py bytes

theorem verifyDir_verified {py : Python F} {faults : Faults} {entries : List (String × Entry)}
    {doc : Value F} {listed : List (String × Value F)}
    (hlisted : doc.item "files" = .ok (.dict listed)) {u : Unit}
    (h : verifyDir py faults entries doc = .ok u) : Verified py entries listed := by
  simp only [verifyDir, hlisted, ofExn, Fallible.mapError_ok, Fallible.ok_bind,
    Fallible.bind_eq_ok] at h
  obtain ⟨_, _, _, hunexpected, _, hregular, hdigests⟩ := h
  constructor
  · intro e he
    have hnone := refuseIf_eq_ok hunexpected
    rw [decide_eq_false_iff_not, not_not, List.length_eq_zero_iff, List.filter_eq_nil_iff]
      at hnone
    have hcontains := hnone e he
    rw [Bool.not_eq_true, Bool.not_eq_false'] at hcontains
    exact List.contains_iff_mem.mp hcontains
  · exact checkRegular_eq_ok hregular
  · intro e he
    exact checkDigests_eq_ok hdigests e ((Sorting.stableSort_perm Prod.fst _).mem_iff.mpr he)

/-- Nothing fails while a directory is checked. -/
structure Faults.Quiet (faults : Faults) : Prop where
  scan : faults.scan = false
  opens : forall name, faults.openFails name = false
  reads : forall name, faults.readFails name = false

theorem find?_of_mem {A : Type} {entries : List (String × A)}
    (hkeys : (entries.map Prod.fst).Nodup) {e : String × A} (he : e ∈ entries) :
    entries.find? (fun e' => e'.1 == e.1) = some e := by
  induction entries with
  | nil => cases he
  | cons head rest ih =>
      rw [List.map_cons, List.nodup_cons] at hkeys
      rcases List.mem_cons.mp he with heq | hrest
      · rw [heq, List.find?_cons_of_pos (by simp)]
      · have hne : head.1 ≠ e.1 := by
          intro hsame
          exact hkeys.1 (hsame ▸ List.mem_map_of_mem hrest)
        rw [List.find?_cons_of_neg (by simpa using hne)]
        exact ih hkeys.2 hrest

theorem readRegular_of_mem {faults : Faults} (quiet : faults.Quiet)
    {entries : List (String × Entry)} (hkeys : (entries.map Prod.fst).Nodup) {name : String}
    {bytes : Content} (h : (name, .file bytes) ∈ entries) :
    readRegular faults entries name = .ok bytes := by
  unfold readRegular
  rw [find?_of_mem hkeys h]
  dsimp only
  rw [if_neg (Bool.eq_false_iff.mp (quiet.opens name)),
    if_neg (Bool.eq_false_iff.mp (quiet.reads name))]

theorem checkRegular_ok {entries : List (String × Entry)}
    (h : forall e, e ∈ entries -> exists bytes, e.2 = .file bytes) :
    checkRegular entries = .ok () := by
  induction entries with
  | nil => rfl
  | cons e rest ih =>
      obtain ⟨name, entry⟩ := e
      rw [List.forall_mem_cons] at h
      obtain ⟨bytes, hbytes⟩ := h.1
      cases hbytes
      exact ih h.2

theorem checkDigests_ok {py : Python F} {faults : Faults} {entries : List (String × Entry)}
    {listed : List (String × Value F)}
    (h : forall e, e ∈ listed -> exists bytes,
      readRegular faults entries e.1 = .ok bytes ∧ e.2 = digestOf py bytes) :
    checkDigests py faults entries listed = .ok () := by
  induction listed with
  | nil => rfl
  | cons e rest ih =>
      obtain ⟨bytes, hread, hdigest⟩ := h e List.mem_cons_self
      have hsame : (digestOf py bytes).differs e.2 = false := by
        rw [hdigest, digestOf]
        simp [Value.differs, Value.eq, Value.number?]
      rw [checkDigests, hread, Fallible.ok_bind, hsame]
      exact ih (fun e he => h e (List.mem_cons_of_mem _ he))

/-- A directory that holds the listed files is accepted when nothing fails. -/
theorem verifyDir_of_verified {py : Python F} {faults : Faults} (quiet : faults.Quiet)
    {entries : List (String × Entry)} (hkeys : (entries.map Prod.fst).Nodup) {doc : Value F}
    {listed : List (String × Value F)} (hlisted : doc.item "files" = .ok (.dict listed))
    (h : Verified py entries listed) : verifyDir py faults entries doc = .ok () := by
  have hzero : (entries.filter fun e =>
      !((listed.map Prod.fst ++ UNLISTED).contains e.1)).length = 0 := by
    rw [List.length_eq_zero_iff, List.filter_eq_nil_iff]
    intro e he
    rw [Bool.not_eq_true, Bool.not_eq_false']
    exact List.contains_iff_mem.mpr (h.named e he)
  have hdigests : checkDigests py faults entries (sortedFields listed) = .ok () := by
    apply checkDigests_ok
    intro e he
    obtain ⟨bytes, hbytes, hdigest⟩ :=
      h.hashed e ((Sorting.stableSort_perm Prod.fst listed).mem_iff.mp he)
    exact ⟨bytes, readRegular_of_mem quiet hkeys hbytes, hdigest⟩
  unfold verifyDir
  rw [hlisted, ofExn, Fallible.mapError_ok, Fallible.ok_bind]
  simp only [hzero, checkRegular_ok h.regular, hdigests, quiet.scan]
  rfl

end Manifest
end Dev
end Ostia

import Ostia.Capture.Contract
import Ostia.Dev.WrittenText

/-!
# The consumer of a capture

The directory that a capture leaves is read by the tools in Python.  They accept it when the
capture returned that it is complete or partial, and refuse it after any failure.
-/

namespace Ostia
namespace Capture
namespace Consumer

open Foundation
open Dev (Value)
open Dev.JsonText (FloatText)
open Dev.Manifest (Python Faults Refusal Draft)
open Dev.WrittenText (ofJson ofItems ofFields PlainItems PlainFields)

variable {F : Type}

/-!
## The same bytes and entries
-/

/-- Bytes as Python decodes them. -/
def contentOf (bytes : Bytes) : Dev.Content :=
  match String.fromUTF8? ⟨bytes.toArray⟩ with
  | some text => .utf8 text
  | none => .other bytes

def bytesOf : Dev.Content -> Bytes
  | .utf8 text => utf8 text
  | .other bytes => bytes

def entryOf : Content -> Dev.Manifest.Entry
  | .file bytes => .file (contentOf bytes)
  | .link _ => .symlink
  | .tree => .other

/-- The entries of an output directory, if it is one. -/
def entriesOf : Out -> Option (List (String × Dev.Manifest.Entry))
  | .directory files => some (files.entries.map fun e => (e.1, entryOf e.2.content))
  | _ => none

/-- What holds a file is a directory. -/
theorem entriesOf_of_file? {out : Out} {name : String} {bytes : Bytes}
    (h : out.file? name = some bytes) : exists entries, entriesOf out = some entries := by
  cases out with
  | directory files => exact ⟨_, rfl⟩
  | absent => cases h
  | other => cases h

theorem contentOf_utf8 (s : String) : contentOf (utf8 s) = .utf8 s := by
  have hbytes : (⟨(utf8 s).toArray⟩ : ByteArray) = s.toByteArray := by
    unfold utf8
    rw [Array.toArray_toList]
  unfold contentOf
  rw [hbytes]
  have hvalid : s.toByteArray.IsValidUTF8 := s.isValidUTF8
  unfold String.fromUTF8?
  rw [dif_pos hvalid]
  rfl

theorem bytesOf_contentOf (bytes : Bytes) : bytesOf (contentOf bytes) = bytes := by
  unfold contentOf
  cases htext : String.fromUTF8? ⟨bytes.toArray⟩ with
  | none => rfl
  | some text =>
      unfold String.fromUTF8? at htext
      split_ifs at htext with hvalid
      cases htext
      rfl

variable [FloatText F]

/-!
## What the manifest of a success says
-/

/-- The manifest of a capture that did not fail. -/
structure SuccessManifest (sha256Hex : Bytes -> String) (m : Manifest) : Prop where
  status : m.status ≠ .failed
  sanitized : m.sanitized = true
  leakCheck : m.leakCheck = .passed
  topologyId : exists text, m.topologyId = some ("topo1:sha256:" ++ sha256Hex text)
  errors : m.errors = []
  missing : exists nvml : Nvml, m.missing = nvml.missingFiles
  listed : forall e, e ∈ m.files.entries -> e.1 ∈ kDataFiles ∧
    exists bytes, e.2 = fileHash sha256Hex bytes
  always : forall name, name ∈ alwaysFiles -> exists hash, m.files.find? name = some hash

/-- The regular expressions of the schema find a hash and an id. -/
structure Searches (search : String -> String -> Bool) (sha256Hex : Bytes -> String) : Prop where
  hash : forall bytes, search Dev.Manifest.hashPattern (fileHash sha256Hex bytes) = true
  id : forall bytes,
    search "^topo1:sha256:[0-9a-f]{64}$" ("topo1:sha256:" ++ sha256Hex bytes) = true

/-- A dictionary with the required members, each an instance of its property. -/
theorem valid_dict {search : String -> String -> Bool} {properties : List (String × Draft F)}
    {required : List String} {additionalProperties : Bool} {fields : List (String × Value F)}
    (hrequired : (required.all fun name => (Value.lookup name fields).isSome) = true)
    (hfields : forall field, field ∈ fields ->
      Draft.validProperty search properties additionalProperties field.1 field.2 = true) :
    Draft.valid search
      { type := ["object"]
        properties := properties
        required := required
        additionalProperties := additionalProperties } (.dict fields) = true := by
  rw [Draft.valid, Draft.validParts, hrequired, List.all_eq_true.mpr hfields]
  rfl

/-- A text that a pattern finds something in. -/
theorem valid_pattern {search : String -> String -> Bool} {type : List String}
    {pattern text : String}
    (htype : (type.any fun t => Draft.isType (F := F) (.str text) t) = true)
    (hpattern : search pattern text = true) :
    Draft.valid (F := F) search { type := type, pattern := some pattern } (.str text) = true := by
  rw [Draft.valid, Draft.validScalar, htype, Bool.or_true]
  show (true && true && true && search pattern text) && true = true
  rw [hpattern]
  rfl

omit [FloatText F] in
theorem ofFields_strings (entries : List (String × String)) :
    ofFields (F := F) (entries.map fun e => (e.1, Topology.Json.str e.2)) =
      entries.map fun e => (e.1, .str e.2) := by
  induction entries with
  | nil => rfl
  | cons e rest ih =>
      rw [List.map_cons, List.map_cons, ofFields, ih, ofJson]

/-- A file of the contract may have a hash. -/
theorem validProperty_file {search : String -> String -> Bool} {v : Value F}
    (hv : Draft.valid search Dev.Manifest.hashSchema v = true) {names : List String} {name : String}
    (hname : name ∈ names) :
    Draft.validProperty search (names.map fun n => (n, Dev.Manifest.hashSchema)) false name v =
      true := by
  induction names with
  | nil => cases hname
  | cons n rest ih =>
      rw [List.map_cons, Draft.validProperty]
      split_ifs with heq
      · exact hv
      · exact ih ((List.mem_cons.mp hname).resolve_left (Ne.symm heq))

theorem valid_files {search : String -> String -> Bool} {sha256Hex : Bytes -> String}
    (hsearch : Searches search sha256Hex) {m : Manifest} (h : SuccessManifest sha256Hex m) :
    Draft.valid (F := F) search
      { type := ["object"]
        properties := Dev.Manifest.FILES.map fun name => (name, Dev.Manifest.hashSchema)
        additionalProperties := false }
      (.dict (m.files.entries.map fun e => (e.1, .str e.2))) = true := by
  apply valid_dict
  · rfl
  · intro field hfield
    obtain ⟨e, he, rfl⟩ := List.mem_map.mp hfield
    obtain ⟨hname, bytes, hhash⟩ := h.listed e he
    apply validProperty_file
    · apply valid_pattern rfl
      rw [hhash]
      exact hsearch.hash bytes
    · exact hname

theorem valid_missing (search : String -> String -> Bool) (nvml : Nvml) :
    Draft.valid (F := F) search (Dev.Manifest.pairsSchema "file" "reason")
      (.list (ofItems (nvml.missingFiles.map fun f =>
        .obj [("file", .str f.file), ("reason", .str f.reason)]))) = true := by
  cases nvml with
  | missing reason => rfl
  | notRequired => rfl
  | facts text => rfl

theorem valid_manifest {search : String -> String -> Bool} {sha256Hex : Bytes -> String}
    (toolVersion : String) (hsearch : Searches search sha256Hex) {m : Manifest}
    (h : SuccessManifest sha256Hex m) :
    Draft.valid search Dev.Manifest.schema (ofJson (F := F) (manifestJson toolVersion m)) =
      true := by
  obtain ⟨text, hid⟩ := h.topologyId
  obtain ⟨nvml, hmissing⟩ := h.missing
  unfold manifestJson
  rw [hid, h.errors, h.leakCheck, h.sanitized, hmissing]
  simp only [ofJson, ofFields, List.map_nil, ofFields_strings]
  apply valid_dict
  · rfl
  · simp only [List.forall_mem_cons]
    refine ⟨rfl, valid_files hsearch h, rfl, valid_missing search nvml, rfl, rfl, ?_, rfl, ?_, ?_⟩
    · cases m.status with
      | complete => rfl
      | partialCapture => rfl
      | failed => rfl
    · show Draft.valid search { type := ["string", "null"], pattern := some _ } (.str _) = true
      exact valid_pattern rfl (hsearch.id text)
    · intro field hfield
      cases hfield

/-!
## The manifest as it is read
-/

/-- The document of a manifest of a success. -/
def document (toolVersion : String) (m : Manifest) (id : String) : Value F :=
  .dict [("errors", .list []), ("files", .dict (m.files.entries.map fun e => (e.1, .str e.2))),
    ("leak_check", .str "passed"),
    ("missing", .list (ofItems (m.missing.map fun f =>
      .obj [("file", .str f.file), ("reason", .str f.reason)]))),
    ("sanitized", .bool true), ("schema", .int 1), ("status", .str m.status.name),
    ("tool_version", .str toolVersion), ("topology_id", .str id)]

omit [FloatText F] in
theorem ofJson_manifest {sha256Hex : Bytes -> String} (toolVersion : String) {m : Manifest}
    (h : SuccessManifest sha256Hex m) {id : String} (hid : m.topologyId = some id) :
    ofJson (F := F) (manifestJson toolVersion m) = document toolVersion m id := by
  unfold manifestJson document
  rw [hid, h.errors, h.leakCheck, h.sanitized]
  simp only [ofJson, ofFields, List.map_nil, ofFields_strings]
  rfl

theorem plain_manifest (toolVersion : String) (m : Manifest) :
    Dev.WrittenText.Plain (manifestJson toolVersion m) := by
  have hstrings : forall entries : List (String × String),
      PlainFields (entries.map fun e => (e.1, Topology.Json.str e.2)) := by
    intro entries
    induction entries with
    | nil => trivial
    | cons e rest ih => exact ⟨trivial, ih⟩
  have hpairs : forall (first second : String) (pairs : List (String × String)), first ≠ second ->
      PlainItems (pairs.map fun p =>
        .obj [(first, Topology.Json.str p.1), (second, Topology.Json.str p.2)]) := by
    intro first second pairs hne
    induction pairs with
    | nil => trivial
    | cons p rest ih =>
        refine ⟨⟨?_, trivial, trivial, trivial⟩, ih⟩
        rw [List.map_cons, List.map_cons, List.map_nil, List.nodup_cons, List.mem_singleton]
        exact ⟨hne, List.nodup_singleton _⟩
  unfold manifestJson
  rw [Dev.WrittenText.Plain]
  refine ⟨?_, ?_, ?_, trivial, ?_, trivial, ?_, trivial, trivial, ?_, trivial⟩
  · show ["errors", "files", "leak_check", "missing", "sanitized", "schema", "status",
      "tool_version", "topology_id"].Nodup
    decide
  · have herrors := hpairs "code" "message" (m.errors.map fun e => (e.name, e.message)) (by decide)
    rw [List.map_map] at herrors
    exact herrors
  · refine ⟨?_, hstrings m.files.entries⟩
    rw [List.map_map]
    exact List.pairwise_map.mpr (m.files.sorted.imp ne_of_lt)
  · have hmissing := hpairs "file" "reason" (m.missing.map fun f => (f.file, f.reason)) (by decide)
    rw [List.map_map] at hmissing
    exact hmissing
  · rw [Dev.WrittenText.Plain]
    decide
  · cases m.topologyId with
    | none => trivial
    | some id => trivial

/-!
## How long a manifest is
-/

theorem length_quoted (s : String) :
    (Topology.Pretty.layout.quoted s).length ≤ 6 * s.length + 2 := by
  have hescape : forall c, (Topology.Pretty.escapeChar c).length ≤ 6 := by
    intro c
    unfold Topology.Pretty.escapeChar
    split_ifs
    all_goals
      simp only [List.length_cons, List.length_nil]
      omega
  have hbody : forall cs : List Char,
      (Topology.Pretty.layout.body cs).length ≤ 6 * cs.length + 1 := by
    intro cs
    unfold Topology.Layout.body
    induction cs with
    | nil => exact Nat.le_refl 1
    | cons c cs ih =>
        have hc := hescape c
        rw [List.length_append, List.length_singleton] at ih ⊢
        rw [List.flatMap_cons, List.length_append, List.length_cons,
          Topology.Pretty.layout_escape]
        omega
  have hs := hbody s.toList
  unfold Topology.Layout.quoted
  rw [List.length_cons]
  rw [String.length_toList] at hs
  omega

omit [FloatText F] in
theorem size_utf8 (s : String) : Dev.Manifest.size (.utf8 s) ≤ 4 * s.length := by
  have hchars : forall cs : List Char, (String.ofList cs).utf8ByteSize ≤ 4 * cs.length := by
    intro cs
    induction cs with
    | nil => exact Nat.le_refl 0
    | cons c cs ih =>
        rw [String.ofList_cons, String.utf8ByteSize_append, String.utf8ByteSize_singleton,
          List.length_cons]
        have hc := c.utf8Size_le_four
        omega
  have hs := hchars s.toList
  rw [String.ofList_toList, String.length_toList] at hs
  exact hs

/-- The members of an object, with names and values that are not too long. -/
theorem length_members_le {d n : Nat} {fs : List (String × Topology.Json)}
    (h : forall f, f ∈ fs -> f.1.length ≤ 12 ∧
      (Topology.Pretty.layout.text (d + 2) f.2).length ≤ n) :
    (Topology.Pretty.layout.members d fs).length ≤ fs.length * (d + 80 + n) + d + 2 := by
  induction fs with
  | nil =>
      rw [Topology.Layout.members]
      simp [Topology.Pretty.newline]
  | cons f fs ih =>
      obtain ⟨k, v⟩ := f
      rw [List.forall_mem_cons] at h
      have hrest := ih h.2
      have hkey := length_quoted k
      have hshort : k.length ≤ 12 ∧ (Topology.Pretty.layout.text (d + 2) v).length ≤ n := h.1
      rw [Dev.WrittenText.members_cons, Dev.WrittenText.textFields]
      simp only [List.length_append, List.length_cons, Nat.succ_mul, Topology.Pretty.newline,
        List.length_replicate]
      omega

theorem length_obj_le {d n : Nat} {fs : List (String × Topology.Json)}
    (h : forall f, f ∈ fs -> f.1.length ≤ 12 ∧
      (Topology.Pretty.layout.text (d + 2) f.2).length ≤ n) :
    (Topology.Pretty.layout.text d (.obj fs)).length ≤ fs.length * (d + 80 + n) + d + 2 := by
  cases fs with
  | nil =>
      rw [Topology.Layout.text]
      show 2 ≤ _
      omega
  | cons f fs =>
      obtain ⟨k, v⟩ := f
      have hmembers := length_members_le h
      rw [Dev.WrittenText.members_cons, List.length_cons] at hmembers
      rw [Dev.WrittenText.text_obj, List.length_cons]
      exact hmembers

omit [FloatText F] in
theorem length_files {sha256Hex : Bytes -> String} (hlength : forall b, (sha256Hex b).length = 64)
    {m : Manifest} (h : SuccessManifest sha256Hex m) :
    (Topology.Pretty.layout.text 2 (.obj (m.files.entries.map fun e => (e.1, .str e.2)))).length ≤
      2600 := by
  have hfive : m.files.entries.length ≤ 5 := by
    have hkeys : (m.files.entries.map Prod.fst).Nodup :=
      List.pairwise_map.mpr (m.files.sorted.imp ne_of_lt)
    have hsub : m.files.entries.map Prod.fst ⊆ kDataFiles := by
      intro name hname
      obtain ⟨e, he, rfl⟩ := List.mem_map.mp hname
      exact (h.listed e he).1
    have hle := (hkeys.subperm hsub).length_le
    rw [List.length_map] at hle
    exact hle
  have hnames : forall name, name ∈ kDataFiles -> name.length ≤ 12 := by decide
  have hobj :
      (Topology.Pretty.layout.text 2 (.obj (m.files.entries.map fun e => (e.1, .str e.2)))).length ≤
        (m.files.entries.map fun e => (e.1, Topology.Json.str e.2)).length * (2 + 80 + 428) +
          2 + 2 := by
    apply length_obj_le
    intro f hf
    obtain ⟨e, he, rfl⟩ := List.mem_map.mp hf
    obtain ⟨hname, bytes, hhash⟩ := h.listed e he
    refine ⟨hnames e.1 hname, ?_⟩
    have hquoted := length_quoted e.2
    have htext : e.2.length = 71 := by
      rw [hhash, fileHash, String.length_append, hlength]
      rfl
    rw [Topology.Layout.text]
    omega
  rw [List.length_map] at hobj
  omega

omit [FloatText F] in
theorem size_manifest {sha256Hex : Bytes -> String} (hlength : forall b, (sha256Hex b).length = 64)
    {toolVersion : String} (hversion : toolVersion.length ≤ 1000) {m : Manifest}
    (h : SuccessManifest sha256Hex m) :
    Dev.Manifest.size (.utf8 (Topology.Pretty.dump (manifestJson toolVersion m))) ≤
      Dev.Manifest.MAX_MANIFEST_BYTES := by
  obtain ⟨text, hid⟩ := h.topologyId
  obtain ⟨nvml, hmissing⟩ := h.missing
  have hstring : forall s : String, s.length ≤ 1000 ->
      (Topology.Pretty.layout.text 2 (.str s)).length ≤ 6002 := by
    intro s hs
    have hquoted := length_quoted s
    rw [Topology.Layout.text]
    omega
  have hfiles := length_files hlength h
  have hgone : (Topology.Pretty.layout.text 2 (.arr (m.missing.map fun f =>
      .obj [("file", .str f.file), ("reason", .str f.reason)]))).length ≤ 200 := by
    rw [hmissing]
    cases nvml with
    | missing reason =>
        cases reason
        all_goals decide
    | notRequired =>
        show (Topology.Pretty.layout.text 2 (.arr [])).length ≤ 200
        decide
    | facts text =>
        show (Topology.Pretty.layout.text 2 (.arr [])).length ≤ 200
        decide
  have hwhole : (Topology.Pretty.layout.text 0 (manifestJson toolVersion m)).length ≤
      9 * (0 + 80 + 6002) + 0 + 2 := by
    apply length_obj_le
    simp only [List.forall_mem_cons]
    refine ⟨⟨by decide, ?_⟩, ⟨by decide, hfiles.trans (by decide)⟩, ⟨by decide, ?_⟩,
      ⟨by decide, hgone.trans (by decide)⟩, ⟨by decide, ?_⟩, ⟨by decide, by decide⟩,
      ⟨by decide, ?_⟩,
      ⟨by decide, hstring toolVersion hversion⟩, ⟨by decide, ?_⟩, ?_⟩
    · rw [h.errors]
      decide
    · rw [h.leakCheck]
      decide
    · rw [h.sanitized]
      decide
    · apply hstring
      cases m.status
      all_goals decide
    · rw [hid]
      apply hstring
      rw [String.length_append, hlength]
      decide
    · intro f hf
      cases hf
  have hsize := size_utf8 (Topology.Pretty.dump (manifestJson toolVersion m))
  have hdump : (Topology.Pretty.dump (manifestJson toolVersion m)).length =
      (Topology.Pretty.layout.text 0 (manifestJson toolVersion m)).length + 1 := by
    unfold Topology.Pretty.dump
    rw [String.length_ofList, List.length_append, List.length_singleton]
  have hlimit : Dev.Manifest.MAX_MANIFEST_BYTES = 1048576 := rfl
  omega

/-!
## What the consumer makes of a manifest
-/

section Check

variable {py : Python F} {search : String -> String -> Bool} {sha256Hex : Bytes -> String}
  {toolVersion : String} {m : Manifest}

/-- The text of a manifest as a printer of the tool prints it. -/
def printed (printer : Printer) (m : Manifest) : Dev.Content :=
  .utf8 (printer.dump (manifestJson printer.toolVersion m))

omit [FloatText F] in
theorem contentOf_manifestText (printer : Printer) (m : Manifest) :
    contentOf (manifestText printer m) = printed printer m := contentOf_utf8 _

/-- The manifests of a printer are read as the documents that were printed. -/
def ReadBack (py : Python F) (printer : Printer) : Prop :=
  forall m, Dev.Manifest.parse py (printed printer m) =
    .ok (ofJson (manifestJson printer.toolVersion m))

/-- The manifests of the successes of a printer are not too long to be read. -/
def Fits (printer : Printer) (sha256Hex : Bytes -> String) : Prop :=
  forall m, SuccessManifest sha256Hex m ->
    Dev.Manifest.size (printed printer m) ≤ Dev.Manifest.MAX_MANIFEST_BYTES

/-- A machine that can nest as deep as manifests do reads back what is indented by two. -/
theorem readBack_pretty (hdeep : forall text, py.tooDeep text = false) :
    ReadBack py prettyPrinter :=
  fun m => Dev.WrittenText.parse_dump (plain_manifest "0.1.0" m) (hdeep _)

omit [FloatText F] in
theorem fits_pretty (hlength : forall b, (sha256Hex b).length = 64) :
    Fits prettyPrinter sha256Hex :=
  fun _ h => size_manifest hlength (by decide) h

theorem validate_success (hpy : Dev.Manifest.Validates py search)
    (hinstalled : forall doc, (py.violations doc).isSome = true)
    (hsearch : Searches search sha256Hex) (h : SuccessManifest sha256Hex m) {id : String}
    (hid : m.topologyId = some id) :
    Dev.Manifest.validate py (document toolVersion m id) = .ok () := by
  obtain ⟨found, hfound⟩ := Option.isSome_iff_exists.mp (hinstalled (document toolVersion m id))
  have hvalid := valid_manifest (F := F) toolVersion hsearch h
  rw [ofJson_manifest toolVersion h hid] at hvalid
  have hnil : found = [] := (hpy _ found hfound).mpr hvalid
  have hversion : Dev.Manifest.checkVersion py (document toolVersion m id) = .ok () := rfl
  unfold Dev.Manifest.validate
  rw [hversion, Fallible.ok_bind, hfound, hnil]
  rfl

omit [FloatText F] in
theorem lookup_listed (entries : List (String × String)) (name : String) :
    Value.lookup (F := F) name (entries.map fun e => (e.1, .str e.2)) =
      (OrdMap.lookup name entries).map Value.str := by
  induction entries with
  | nil => rfl
  | cons e rest ih =>
      rw [List.map_cons, Value.lookup, OrdMap.lookup]
      by_cases heq : e.1 = name
      · rw [if_pos heq, if_pos heq]
        rfl
      · rw [if_neg heq, if_neg heq, ih]

omit [FloatText F] in
theorem checkListed_success {names : List String} (hnames : forall name, name ∈ names ->
    exists hash, m.files.find? name = some hash) :
    Dev.Manifest.checkListed (F := F) (.dict (m.files.entries.map fun e => (e.1, .str e.2)))
      names = .ok () := by
  induction names with
  | nil => rfl
  | cons name rest ih =>
      rw [List.forall_mem_cons] at hnames
      obtain ⟨hash, hhash⟩ := hnames.1
      have hcontains : Value.contains (F := F)
          (.dict (m.files.entries.map fun e => (e.1, .str e.2))) name = .ok true := by
        rw [Value.contains, lookup_listed, show OrdMap.lookup name m.files.entries = some hash
          from hhash]
        rfl
      rw [Dev.Manifest.checkListed, hcontains]
      exact ih hnames.2

variable {printer : Printer}

/-- The manifest of a success passes every check. -/
theorem checkManifest_success (hread : ReadBack py printer)
    (hpy : Dev.Manifest.Validates py search)
    (hinstalled : forall doc, (py.violations doc).isSome = true)
    (hsearch : Searches search sha256Hex) (h : SuccessManifest sha256Hex m) {id : String}
    (hid : m.topologyId = some id) :
    Dev.Manifest.checkManifest py (printed printer m) =
      .ok (document printer.toolVersion m id) := by
  have hother : Dev.Manifest.namesOther (F := F)
      (some (.dict (m.files.entries.map fun e => (e.1, .str e.2)))) = false := by
    rw [Dev.Manifest.namesOther, List.any_eq_false]
    intro field hfield
    obtain ⟨e, he, rfl⟩ := List.mem_map.mp hfield
    have hknown : e.1 ∈ Dev.Manifest.FILES := (h.listed e he).1
    simpa using hknown
  have hstatus : (Value.str (F := F) m.status.name).eq (.str "failed") = false := by
    cases hs : m.status with
    | complete => rfl
    | partialCapture => rfl
    | failed => exact absurd hs h.status
  have hget : (document (F := F) printer.toolVersion m id).get "files" =
      .ok (some (.dict (m.files.entries.map fun e => (e.1, .str e.2)))) := rfl
  have hitem : (document (F := F) printer.toolVersion m id).item "files" =
      .ok (.dict (m.files.entries.map fun e => (e.1, .str e.2))) := rfl
  have hstatusItem : (document (F := F) printer.toolVersion m id).item "status" =
      .ok (.str m.status.name) := rfl
  have hversion : Dev.Manifest.checkVersion py (document printer.toolVersion m id) = .ok () := rfl
  unfold Dev.Manifest.checkManifest
  rw [hread m, ofJson_manifest printer.toolVersion h hid, Fallible.ok_bind, hversion,
    Fallible.ok_bind, hget, Dev.Manifest.ofExn, Fallible.mapError_ok, Fallible.ok_bind, hother,
    Dev.Manifest.refuseIf, if_neg Bool.false_ne_true, Fallible.ok_bind,
    validate_success hpy hinstalled hsearch h hid, Fallible.ok_bind, hstatusItem,
    Dev.Manifest.ofExn, Fallible.mapError_ok, Fallible.ok_bind, hstatus, Dev.Manifest.refuseIf,
    if_neg Bool.false_ne_true, Fallible.ok_bind, hitem]
  have hlisted := checkListed_success (F := F) (m := m) h.always
  rw [show alwaysFiles = Dev.Manifest.ALWAYS from rfl] at hlisted
  show (Dev.Manifest.checkListed (F := F)
    (.dict (m.files.entries.map fun e => (e.1, .str e.2))) Dev.Manifest.ALWAYS >>=
      fun _ => pure (document printer.toolVersion m id)) = _
  rw [hlisted]
  rfl

/-- The manifest of a failure is refused. -/
theorem checkManifest_failed (hread : ReadBack py printer)
    (hinstalled : forall doc, (py.violations doc).isSome = true)
    (hstatus : m.status = .failed) (hfiles : m.files = OrdMap.empty) :
    exists reason, Dev.Manifest.checkManifest py (printed printer m) =
      .error (.rejected reason) := by
  let doc : Value F := ofJson (manifestJson printer.toolVersion m)
  have hversion : Dev.Manifest.checkVersion py doc = .ok () := rfl
  have hget : doc.get "files" = .ok (some (.dict [])) := by
    show Except.ok (some (Value.dict (ofFields (m.files.entries.map fun e =>
      (e.1, Topology.Json.str e.2))))) = _
    rw [hfiles]
    rfl
  have hitem : doc.item "status" = .ok (.str "failed") := by
    show Except.ok (Value.str m.status.name) = _
    rw [hstatus]
    rfl
  have hvalidate : Dev.Manifest.validate py doc = .ok () ∨
      exists reason, Dev.Manifest.validate py doc = .error (.rejected reason) := by
    obtain ⟨found, hfound⟩ := Option.isSome_iff_exists.mp (hinstalled doc)
    unfold Dev.Manifest.validate
    rw [hversion, Fallible.ok_bind, hfound]
    simp only
    cases hfirst : Dev.Manifest.first found with
    | none => exact Or.inl rfl
    | some e => exact Or.inr ⟨_, rfl⟩
  have hother : Dev.Manifest.namesOther (F := F) (some (.dict [])) = false := rfl
  unfold Dev.Manifest.checkManifest
  rw [hread m, Fallible.ok_bind]
  change exists reason, (Dev.Manifest.checkVersion py doc >>= _) = _
  rw [hversion, Fallible.ok_bind, hget, Dev.Manifest.ofExn, Fallible.mapError_ok,
    Fallible.ok_bind, hother,
    Dev.Manifest.refuseIf, if_neg Bool.false_ne_true, Fallible.ok_bind]
  rcases hvalidate with hok | ⟨reason, hrejected⟩
  · rw [hok, Fallible.ok_bind, hitem]
    exact ⟨_, rfl⟩
  · rw [hrejected]
    exact ⟨reason, rfl⟩

end Check

end Consumer
end Capture
end Ostia

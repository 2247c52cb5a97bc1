import Ostia.Capture.Bytes
import Ostia.Topology.Pretty

/-!
# The manifest of a capture

What a capture says about itself: its status, the files that it lists with their hashes,
what is missing and which errors ended it.
-/

namespace Ostia
namespace Capture

open Foundation
open Ostia.Topology

inductive Status where
  | complete
  | partialCapture
  | failed
deriving DecidableEq

inductive LeakCheck where
  | notRun
  | passed
  | failed
deriving DecidableEq

inductive ErrorCode where
  | hwlocLoad
  | xmlReimport
  | linksRead
  | linksSchema
  | schema
  | leak
  | outputUnreadable
  | replay
  | writeFailed
  | internal
deriving DecidableEq

structure MissingFile where
  file : String
  reason : String
deriving DecidableEq

structure Manifest where
  status : Status
  sanitized : Bool
  leakCheck : LeakCheck
  topologyId : Option String
  files : OrdMap String String
  missing : List MissingFile
  errors : List ErrorCode

/-- A manifest before anything was done: failed. -/
def Manifest.start : Manifest := ⟨.failed, false, .notRun, none, OrdMap.empty, [], []⟩

/-- The form of a failed capture: it lists no files and has no id. -/
def Manifest.failedForm (m : Manifest) : Manifest :=
  { m with status := .failed, files := OrdMap.empty, topologyId := none }

/-- Add the error of a write that failed, once. -/
def Manifest.addWriteFailed (m : Manifest) : Manifest :=
  { m with errors := if ErrorCode.writeFailed ∈ m.errors then m.errors
      else m.errors ++ [.writeFailed] }

def Status.name : Status -> String
  | .complete => "complete"
  | .partialCapture => "partial"
  | .failed => "failed"

def LeakCheck.name : LeakCheck -> String
  | .passed => "passed"
  | .failed => "failed"
  | .notRun => "not_run"

def ErrorCode.name : ErrorCode -> String
  | .hwlocLoad => "hwloc_load"
  | .xmlReimport => "xml_reimport"
  | .linksRead => "links_read"
  | .linksSchema => "links_schema"
  | .schema => "schema"
  | .leak => "leak"
  | .outputUnreadable => "output_unreadable"
  | .replay => "replay"
  | .writeFailed => "write_failed"
  | .internal => "internal"

def ErrorCode.message : ErrorCode -> String
  | .hwlocLoad => "hwloc could not load the topology of this machine"
  | .xmlReimport =>
      "the rewritten hwloc.xml does not load with the replay flags (RFC-0003 §2.1)"
  | .linksRead => "the --links file cannot be read or is not JSON"
  | .linksSchema => "the --links file does not match the links.json schema (supported: 1)"
  | .schema => "an output file does not match its schema; see diagnostics.txt"
  | .leak =>
      "the leak check found an identifier of this machine in an output file; see " ++
        "diagnostics.txt for the file, line and kind"
  | .outputUnreadable => "an output file could not be read back for the leak check"
  | .replay =>
      "the written files do not replay into a topology model; see diagnostics.txt"
  | .writeFailed => "an output file could not be written (disk full or permission denied)"
  | .internal => "unexpected internal error; see diagnostics.txt"

def exitFor (leakOrSchema otherFailure isPartial : Bool) : Nat :=
  if leakOrSchema then 3 else if otherFailure then 1 else if isPartial then 2 else 0

section Text

-- The SHA-256 of bytes in hexadecimal digits.
variable (sha256Hex : Bytes -> String)

def fileHash (bytes : Bytes) : String := "sha256:" ++ sha256Hex bytes

/-- The document of a manifest; members are in the order of their names. -/
def manifestJson (toolVersion : String) (m : Manifest) : Json :=
  .obj [
    ("errors", .arr (m.errors.map fun e =>
      .obj [("code", .str e.name), ("message", .str e.message)])),
    ("files", .obj (m.files.entries.map fun e => (e.1, .str e.2))),
    ("leak_check", .str m.leakCheck.name),
    ("missing", .arr (m.missing.map fun f =>
      .obj [("file", .str f.file), ("reason", .str f.reason)])),
    ("sanitized", .bool m.sanitized),
    ("schema", .int 1),
    ("status", .str m.status.name),
    ("tool_version", .str toolVersion),
    ("topology_id", match m.topologyId with
      | some id => .str id
      | none => .null)]

/-- The bytes of a text. -/
def utf8 (s : String) : Bytes := s.toByteArray.data.toList

theorem utf8_injective : Function.Injective utf8 := by
  intro s t h
  have hbytes : s.toByteArray = t.toByteArray := by
    apply ByteArray.ext
    exact Array.toList_inj.mp h
  exact String.toByteArray_inj.mp hbytes

theorem utf8_ofList (cs : List Char) :
    utf8 (String.ofList cs) = cs.flatMap String.utf8EncodeChar := by
  unfold utf8
  rw [String.toByteArray_ofList]
  exact List.toList_data_toByteArray

/-- Only a character of the ASCII range is encoded with a byte below 128. -/
theorem utf8EncodeChar_low {c : Char} {b : UInt8} (h : b ∈ String.utf8EncodeChar c)
    (hb : b.toNat < 0x80) : c.toNat = b.toNat := by
  have hhigh : forall n : Nat, 0x80 ≤ n -> n < 256 -> b = UInt8.ofNat n -> False := by
    rintro n hn hlt rfl
    rw [UInt8.toNat_ofNat', Nat.mod_eq_of_lt hlt] at hb
    omega
  unfold String.utf8EncodeChar at h
  dsimp only at h
  split_ifs at h with h0 h1 h2
  · rw [List.mem_singleton.mp h, UInt8.toNat_ofNat', Nat.mod_eq_of_lt (by omega)]
    rfl
  all_goals
    simp only [List.mem_cons, List.not_mem_nil, or_false] at h
    exfalso
  · rcases h with h | h
    · exact hhigh _ (by omega) (by omega) h
    · exact hhigh _ (by omega) (by omega) h
  · rcases h with h | h | h
    · exact hhigh _ (by omega) (by omega) h
    · exact hhigh _ (by omega) (by omega) h
    · exact hhigh _ (by omega) (by omega) h
  · rcases h with h | h | h | h
    · exact hhigh _ (by omega) (by omega) h
    · exact hhigh _ (by omega) (by omega) h
    · exact hhigh _ (by omega) (by omega) h
    · exact hhigh _ (by omega) (by omega) h

/--
What the tool writes its documents with: its version, and the JSON printer of the library, which
does not print two documents alike.
-/
structure Printer where
  toolVersion : String
  dump : Json -> String
  injective : Function.Injective dump

/-- A printer with an indentation of two. -/
def prettyPrinter : Printer := ⟨"0.1.0", Pretty.dump, Pretty.dump_injective⟩

section Printed

variable (printer : Printer)

def manifestText (m : Manifest) : Bytes := utf8 (printer.dump (manifestJson printer.toolVersion m))

theorem Status.name_injective : Function.Injective Status.name := by
  intro a b h
  cases a
  all_goals cases b
  all_goals first | rfl | (revert h; decide)

/-- A written manifest can be read back: its text determines its status and its files. -/
theorem manifestText_inj {m m' : Manifest}
    (h : manifestText printer m = manifestText printer m') :
    m.status = m'.status ∧ m.files = m'.files ∧ m.topologyId = m'.topologyId ∧
      m.sanitized = m'.sanitized := by
  have hdoc := printer.injective (utf8_injective h)
  unfold manifestJson at hdoc
  simp only [Json.obj.injEq, List.cons.injEq, Prod.mk.injEq, true_and, and_true] at hdoc
  rcases hdoc with ⟨_, hfiles, _, _, hsanitized, hstatus, hid⟩
  refine ⟨?_, ?_, ?_, ?_⟩
  · injection hstatus with hstatus
    exact Status.name_injective hstatus
  · have hentries : m.files.entries = m'.files.entries := by
      apply List.map_injective_iff.mpr _ hfiles
      intro a b hab
      injection hab with hname hhash
      injection hhash with hhash
      exact Prod.ext hname hhash
    cases hm : m.files
    cases hm' : m'.files
    rw [hm, hm'] at hentries
    cases hentries
    rfl
  · cases hm : m.topologyId with
    | none =>
        cases hm' : m'.topologyId with
        | none => rfl
        | some id =>
            rw [hm, hm'] at hid
            cases hid
    | some id =>
        cases hm' : m'.topologyId with
        | none =>
            rw [hm, hm'] at hid
            cases hid
        | some id' =>
            rw [hm, hm'] at hid
            injection hid with hid
            rw [hid]
  · injection hsanitized

end Printed

end Text

end Capture
end Ostia

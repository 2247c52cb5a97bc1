import Ostia.Dev.Importer
import Ostia.Tool.Identified

/-!
# The id of an imported fixture

A fixture is a copy of a capture whose files may have changed since it was made.  The tool finds
the id that the capture returned, unless a file was replaced by another one with the same hash.
-/

namespace Ostia
namespace Tool

open Foundation
open Capture (Bytes CaptureOutcome Env Out Removable Run capture kDataFiles reserved utf8)
open Capture.Consumer (Left Scanned bytesOf contentOf entryOf)
open Dev.Importer (Copied Copy importCapture)
open Dev.JsonText (FloatText)
open Dev.Manifest (Entry Python digestOf)

/-- A file whose bytes are others than those that the capture left, with the same hash. -/
def Forged (host : Host) (out : Out) (files : OrdMap String Entry) : Prop :=
  exists name bytes content, name ∈ kFixtureFiles ∧ out.file? name = some bytes ∧
    files.find? name = some (.file content) ∧ bytesOf content ≠ bytes ∧
    host.sha256Hex (bytesOf content) = host.sha256Hex bytes

/-- A folder on a disk. -/
structure ShowsFolder (disk : Disk) (dir : String) (files : OrdMap String Entry) : Prop where
  file : forall name content, name ∈ "pair.json" :: kFixtureFiles ->
    files.find? name = some (.file content) ->
    disk (join dir name) = .ok (some ⟨true, some (.ok (bytesOf content))⟩)
  absent : forall name, name ∈ "pair.json" :: kFixtureFiles -> files.find? name = none ->
    disk (join dir name) = .ok none

theorem fixture_data : forall name, name ∈ kFixtureFiles -> name ∈ kDataFiles := by decide

theorem fixture_unrecorded : forall name, name ∈ "pair.json" :: kFixtureFiles ->
    name ≠ "manifest.json" ∧ name ≠ "expected.json" := by decide

section Imported

variable {F : Type} [FloatText F] {py : Python F} {search : String -> String -> Bool}
  {host : Host} {disk : Disk} {dir : String} {printer : Capture.Printer} {base out : Out}
  {m : Capture.Manifest}

/-- The manifest that an import accepts is the one that the capture wrote. -/
theorem document_of_accept (consumer : Capture.Consumer.Host py search host.sha256Hex)
    (hread : Capture.Consumer.ReadBack py printer)
    (hleft : Left printer host.sha256Hex base m out) {id : String}
    (hid : m.topologyId = some id) {entries : List (String × Entry)} (hscan : Scanned out entries)
    {faults : Dev.Manifest.Faults} {doc : Dev.Value F}
    (h : Dev.Manifest.accept py faults (some entries) = .ok doc) :
    doc = Capture.Consumer.document printer.toolVersion m id := by
  obtain ⟨raw, _, hraw, hcheck, _⟩ := Dev.Importer.accept_eq_ok h
  obtain ⟨entry, hentry, hsame⟩ := hscan.mem_iff.mp hraw
  rw [hleft.manifest] at hentry
  cases hentry
  have hfile : Entry.file (contentOf (Capture.manifestText printer m)) = .file raw := hsame
  rw [Capture.Consumer.contentOf_manifestText] at hfile
  cases hfile
  rw [Capture.Consumer.checkManifest_success hread consumer.validates consumer.installed
    consumer.searches hleft.success hid] at hcheck
  exact (Except.ok.inj hcheck).symm

/-- What the tool reads of a fixture is what the capture left. -/
theorem shows_imported (consumer : Capture.Consumer.Host py search host.sha256Hex)
    (hleft : Left printer host.sha256Hex base m out)
    (hbase : forall name, reserved name -> base.entry name = none)
    (hpair : out.entry "pair.json" = none) {env : Dev.Importer.Env} {id : String}
    {listed : List (String × Dev.Value F)} {files : OrdMap String Entry}
    (hcopied : Copied py env (Capture.Consumer.document printer.toolVersion m id) listed files)
    (hforged : ¬ Forged host out files) (hshows : ShowsFolder disk dir files) :
    Shows disk dir out := by
  have hlisting : listed = m.files.entries.map fun e => (e.1, .str e.2) := by
    have hitem : (Capture.Consumer.document (F := F) printer.toolVersion m id).item "files" =
        .ok (.dict (m.files.entries.map fun e => (e.1, .str e.2))) := rfl
    exact Dev.Value.dict.inj (Except.ok.inj (hcopied.listing.symm.trans hitem))
  constructor
  · intro name bytes hname hfile
    rcases List.mem_cons.mp hname with heq | hfixture
    · unfold Out.file? at hfile
      rw [heq, hpair] at hfile
      cases hfile
    have hdata := fixture_data name hfixture
    cases hfind : m.files.find? name with
    | none =>
        unfold Out.file? at hfile
        rw [hleft.unlisted name hdata hfind, hbase name (Or.inl hdata)] at hfile
        cases hfile
    | some hash =>
        obtain ⟨bytes', hentry, hhash⟩ := hleft.listed name hash hfind
        have hsame : bytes' = bytes := by
          unfold Out.file? at hfile
          rw [hentry] at hfile
          exact Option.some.inj hfile
        have hmem : (name, Dev.Value.str hash) ∈ listed := by
          rw [hlisting]
          exact List.mem_map.mpr ⟨(name, hash), OrdMap.mem_entries.mpr hfind, rfl⟩
        obtain ⟨content, hcontent, _, hdigest⟩ := hcopied.hashed _ hmem
        have htext : hash = "sha256:" ++ host.sha256Hex (bytesOf content) := by
          rw [<- consumer.sha256]
          exact Dev.Value.str.inj hdigest
        have hequal : host.sha256Hex (bytesOf content) = host.sha256Hex bytes := by
          rw [hhash, hsame] at htext
          exact (String.append_right_inj _).mp htext.symm
        have hbytes : bytesOf content = bytes := by
          by_contra hne
          exact hforged ⟨name, bytes, content, hfixture, hfile, hcontent, hne, hequal⟩
        rw [<- hbytes]
        exact hshows.file name content hname hcontent
  · intro name hname hnone
    apply hshows.absent name hname
    apply hcopied.others
    · intro hlisted
      rw [hlisting, List.map_map] at hlisted
      obtain ⟨e, he, heq⟩ := List.mem_map.mp hlisted
      obtain ⟨bytes, hentry, _⟩ := hleft.listed e.1 e.2 (OrdMap.mem_entries.mp he)
      have hentry' : out.entry name = some ⟨.file bytes, false⟩ := heq ▸ hentry
      rw [hnone] at hentry'
      cases hentry'
    · exact (fixture_unrecorded name hname).1

/--
A complete capture that is imported, however its directory changes meanwhile, becomes a fixture of
which the tool prints the id that the capture returned, unless a file of it was forged.
-/
theorem cmdId_imported (consumer : Capture.Consumer.Host py search host.sha256Hex)
    (hread : Capture.Consumer.ReadBack py printer) {env : Env}
    (hreplay : forall d, env.replay d = replayOf host d) (hhook : env.beforeValidate = .ok)
    (hout : Removable out)
    (hharmless : forall name e, out.entry name = some e -> Capture.Consumer.Harmless name e)
    {diag : List Bytes} {outcome : CaptureOutcome}
    (h : (capture printer host.sha256Hex env (Run.start out [] diag)).result = .ok outcome)
    (hexit : outcome.exitCode = 0 ∨ outcome.exitCode = 2) {entries : List (String × Entry)}
    (hscan : Scanned (capture printer host.sha256Hex env (Run.start out [] diag)).state.out
      entries) {answers : Dev.Importer.Env} (hanswers : answers.capture = some entries)
    {name : Option String} {before : Dev.Importer.Target}
    (himport : (importCapture py answers name before).result = .ok ())
    (hshows : ShowsFolder disk dir (importCapture py answers name before).state.files) :
    exists id, outcome.topologyId = some id ∧
      (cmdId host disk dir = .ok ⟨kOk, utf8 (id ++ "\n")⟩ ∨
        Forged host (capture printer host.sha256Hex env (Run.start out [] diag)).state.out
          (importCapture py answers name before).state.files) := by
  obtain ⟨base, m, text, hleft, hbase, hpair, hsame, hid, hidentity⟩ :=
    captured_identity hreplay hhook hout hharmless h hexit
  refine ⟨_, hid, ?_⟩
  obtain ⟨_, doc, chosen, listed, files, golden, hchosen, hcopied, _, hfolder, _⟩ :=
    Dev.Importer.fixture_of_import himport
  rw [hfolder] at hshows ⊢
  dsimp only [Dev.Importer.Target.files] at hshows ⊢
  have hfind : forall file, file ∈ "pair.json" :: kFixtureFiles ->
      (files.insert "expected.json" (.file (.utf8 golden))).find? file = files.find? file :=
    fun file hfile => OrdMap.find?_insert_of_ne _ _ (fixture_unrecorded file hfile).2
  have hdoc : doc = Capture.Consumer.document printer.toolVersion m _ :=
    document_of_accept consumer hread hleft (hsame.symm.trans hid) hscan
      (hanswers ▸ hchosen.accepted)
  rw [hdoc] at hcopied
  have hsource : ShowsFolder disk dir files := by
    constructor
    · intro file content hfile hcontent
      exact hshows.file file content hfile ((hfind file hfile).trans hcontent)
    · intro file hfile hnone
      exact hshows.absent file hfile ((hfind file hfile).trans hnone)
  by_cases hforged : Forged host
      (capture printer host.sha256Hex env (Run.start out [] diag)).state.out files
  · right
    obtain ⟨file, bytes, content, hfile, hbytes, hcontent, hne, hequal⟩ := hforged
    exact ⟨file, bytes, content, hfile, hbytes,
      (hfind file (List.mem_cons_of_mem _ hfile)).trans hcontent, hne, hequal⟩
  · left
    have hsee := shows_imported consumer hleft hbase hpair hcopied hforged hsource
    exact cmdId_of_identity (isPair_of_absent hsee hpair) (hidentity disk dir hsee)

end Imported

/-!
## The fixture of a machine with one NIC
-/

/-- The answers that an import gets when nothing disturbs it. -/
def calmAnswers (entries : List (String × Entry)) : Dev.Importer.Env where
  capture := some entries
  checks := Capture.Consumer.noFaults
  metaText := .error .osError
  lower := id
  ready := .ok ()
  probe := .ok ()
  mkdir := .ok ()
  copied name :=
    match Dev.Manifest.readRegular Capture.Consumer.noFaults entries name with
    | .ok bytes => .file bytes
    | .error _ => .fails none .osError
  copyChecks := Capture.Consumer.noFaults
  scandir := id
  scandir_perm := List.Perm.refl
  build := .ok 0
  model _ := .ok ""
  expected := none
  leaks _ := .ok 0
  remains _ := .absent
  path := id

theorem quiet_calmAnswers {entries : List (String × Entry)}
    (hkeys : (entries.map Prod.fst).Nodup) :
    Dev.Importer.Quiet (calmAnswers entries) entries := by
  constructor
  · rfl
  · rfl
  · rfl
  · intro name bytes h
    have hread := Dev.Manifest.readRegular_of_mem Capture.Consumer.quiet_noFaults hkeys h
    unfold calmAnswers
    dsimp only
    rw [hread]
  · exact Capture.Consumer.quiet_noFaults
  · rfl
  · exact fun _ => rfl
  · rfl
  · exact fun _ => rfl

/-- A folder at the root of a disk. -/
def folderDisk (files : OrdMap String Entry) : Disk := fun path =>
  match files.find? path with
  | some (.file content) => .ok (some ⟨true, some (.ok (bytesOf content))⟩)
  | _ => .ok none

theorem showsFolder_folderDisk (files : OrdMap String Entry) :
    ShowsFolder (folderDisk files) "" files := by
  have hjoin : forall name, name ∈ "pair.json" :: kFixtureFiles -> join "" name = name := by decide
  constructor
  · intro name content hname hfile
    unfold folderDisk
    rw [hjoin name hname, hfile]
  · intro name hname hnone
    unfold folderDisk
    rw [hjoin name hname, hnone]

/-- A complete capture of a calm host is accepted by an undisturbed import. -/
theorem import_plain {env : Env} (hcreate : env.createFails = false) {outcome : CaptureOutcome}
    (hresult : (capture Capture.prettyPrinter nicsHost.sha256Hex env
      (Run.start .absent [] [])).result = .ok outcome) (hexit : outcome.exitCode = 0)
    {entries : List (String × Entry)}
    (hscan : Scanned (capture Capture.prettyPrinter nicsHost.sha256Hex env
      (Run.start .absent [] [])).state.out entries) :
    (importCapture Capture.Consumer.plainPython (calmAnswers entries) (some "gcp-g2")
      .absent).result = .ok () := by
  have hconsumed := Capture.Consumer.consumed Capture.Consumer.plainHost
    (Capture.Consumer.readBack_pretty (fun _ => rfl))
    (Capture.Consumer.fits_pretty Capture.Consumer.plainHost.length)
    (.capture env []) Capture.removable_absent
    (fun h => Bool.false_ne_true (hcreate.symm.trans h)) hresult hscan
  rcases hconsumed.accepted (Or.inl hexit) (fun name e h => by cases h) with
    ⟨doc, _, haccept, hstatus, _⟩
  rw [if_pos hexit] at hstatus
  exact Dev.Importer.import_quiet (quiet_calmAnswers hscan.nodup) rfl (by decide) haccept hstatus

theorem cmdId_imported_nic : exists outcome id entries,
    (capture Capture.prettyPrinter nicsHost.sha256Hex nicMachine
      (Run.start .absent [] [])).result = .ok outcome ∧ outcome.topologyId = some id ∧
    Scanned (capture Capture.prettyPrinter nicsHost.sha256Hex nicMachine
      (Run.start .absent [] [])).state.out entries ∧
    (importCapture Capture.Consumer.plainPython (calmAnswers entries) (some "gcp-g2")
      .absent).result = .ok () ∧
    (cmdId nicsHost (folderDisk (importCapture Capture.Consumer.plainPython
        (calmAnswers entries) (some "gcp-g2") .absent).state.files) "" =
          .ok ⟨kOk, utf8 (id ++ "\n")⟩ ∨
      Forged nicsHost (capture Capture.prettyPrinter nicsHost.sha256Hex nicMachine
          (Run.start .absent [] [])).state.out
        (importCapture Capture.Consumer.plainPython (calmAnswers entries) (some "gcp-g2")
          .absent).state.files) := by
  rcases capture_nicMachine with ⟨outcome, hresult, hexit, entries, hentries⟩
  have hscan : Scanned (capture Capture.prettyPrinter nicsHost.sha256Hex nicMachine
      (Run.start .absent [] [])).state.out entries := ⟨entries, hentries, List.Perm.refl _⟩
  have himport := import_plain rfl hresult hexit hscan
  rcases cmdId_imported Capture.Consumer.plainHost
    (Capture.Consumer.readBack_pretty (fun _ => rfl)) (fun _ => rfl) rfl Capture.removable_absent
    (fun name e h => by cases h) hresult (Or.inl hexit) hscan rfl himport
    (showsFolder_folderDisk _) with ⟨id, hid, hprinted⟩
  exact ⟨outcome, id, entries, hresult, hid, hscan, himport, hprinted⟩

end Tool
end Ostia

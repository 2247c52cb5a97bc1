import Ostia.Capture.Published
import Ostia.Tool.Diff

/-!
# The id of a captured machine

A capture replays what it staged with the code of the tool itself.  On the directory that it
leaves, the tool finds the id that the capture returned.
-/

namespace Ostia
namespace Tool

open Foundation
open Capture (Bytes CaptureOutcome Env Issued Out Removable Replay Run Scratched ascii capture
  filled kDataFiles reserved utf8)
open Ostia.Topology (Json Model Schema)

/-!
## Reading the same files
-/

section Same

variable {host : Host} {disk disk' : Disk} {dir dir' : String}

theorem importTree_congr {topo : Capture.Hwloc.Topology}
    (hslot : disk (join dir "hwloc.xml") = disk' (join dir' "hwloc.xml"))
    (h : importTree host disk dir = .ok topo) : importTree host disk' dir' = .ok topo := by
  obtain ⟨slot, hread, h⟩ := Fallible.bind_eq_ok.mp h
  unfold slotAt at hread
  rw [hslot] at hread
  refine Fallible.bind_eq_ok.mpr ⟨slot, hread, ?_⟩
  cases slot with
  | none => cases h
  | some slot => exact h

theorem readText_congr {name : String} {slot : Slot} {bytes : Bytes}
    (h : readText dir name slot = .ok bytes) : readText dir' name slot = .ok bytes := by
  unfold readText at *
  cases hcontent : slot.content with
  | none =>
      rw [hcontent] at h
      cases h
  | some text =>
      rw [hcontent] at h
      dsimp only at h ⊢
      split_ifs at h ⊢
      · exact h
      · cases h

theorem readJson_congr {name : String} {required : Bool} {schema : Schema} {doc : Json}
    (hslot : disk (join dir name) = disk' (join dir' name))
    (h : readJson host disk dir name required schema = .ok doc) :
    readJson host disk' dir' name required schema = .ok doc := by
  obtain ⟨slot, hread, h⟩ := Fallible.bind_eq_ok.mp h
  unfold slotAt at hread
  rw [hslot] at hread
  refine Fallible.bind_eq_ok.mpr ⟨slot, hread, ?_⟩
  cases slot with
  | none =>
      cases required with
      | true => cases h
      | false => exact h
  | some slot =>
      obtain ⟨bytes, hbytes, h⟩ := Fallible.bind_eq_ok.mp h
      exact Fallible.bind_eq_ok.mpr ⟨bytes, readText_congr hbytes, h⟩

/-- A model is built from four files, wherever they are. -/
theorem load_congr {model : Model}
    (hslots : forall name, name ∈ kFixtureFiles -> disk (join dir name) = disk' (join dir' name))
    (h : load host disk dir = .ok model) : load host disk' dir' = .ok model := by
  obtain ⟨fixture, hfixture, hbuild⟩ := Fallible.bind_eq_ok.mp h
  refine Fallible.bind_eq_ok.mpr ⟨fixture, ?_, hbuild⟩
  obtain ⟨topo, htopo, hfixture⟩ := Fallible.bind_eq_ok.mp hfixture
  obtain ⟨nvml, hnvml, hfixture⟩ := Fallible.bind_eq_ok.mp hfixture
  obtain ⟨nics, hnics, hfixture⟩ := Fallible.bind_eq_ok.mp hfixture
  obtain ⟨links, hlinks, hfixture⟩ := Fallible.bind_eq_ok.mp hfixture
  refine Fallible.bind_eq_ok.mpr ⟨topo, importTree_congr (hslots _ (by decide)) htopo, ?_⟩
  refine Fallible.bind_eq_ok.mpr ⟨nvml, readJson_congr (hslots _ (by decide)) hnvml, ?_⟩
  refine Fallible.bind_eq_ok.mpr ⟨nics, readJson_congr (hslots _ (by decide)) hnics, ?_⟩
  exact Fallible.bind_eq_ok.mpr ⟨links, readJson_congr (hslots _ (by decide)) hlinks, hfixture⟩

end Same

/-!
## Captured directories
-/

/-- The scratch directory of a capture, its files under their names. -/
def scratchDisk (d : Scratched) : Disk := fun path =>
  .ok ((d.find? path).map fun bytes => ⟨true, some (.ok bytes)⟩)

/-- The text whose hash is the id of a fixture. -/
def fixtureIdentity (host : Host) (disk : Disk) (dir : String) : Except Exn String := do
  let model ← load host disk dir
  identityOf host model

/-- The replay of a capture: only the errors of the library are told apart. -/
def replayOf (host : Host) (d : Scratched) : Except Capture.Exn Replay :=
  match fixtureIdentity host (scratchDisk d) "" with
  | .ok text => .ok (.identity (utf8 text))
  | .error (.topology e) => .ok (.rejected (utf8 e.code) (utf8 e.file))
  | .error _ => .error .standard

/-- A directory on a disk: its regular files, and nothing under a name that it does not have. -/
structure Shows (disk : Disk) (dir : String) (out : Out) : Prop where
  file : forall name bytes, name ∈ "pair.json" :: kFixtureFiles -> out.file? name = some bytes ->
    disk (join dir name) = .ok (some ⟨true, some (.ok bytes)⟩)
  absent : forall name, name ∈ "pair.json" :: kFixtureFiles -> out.entry name = none ->
    disk (join dir name) = .ok none

section Captured

variable {host : Host} {disk : Disk} {dir : String}

theorem replayOf_eq_identity {d : Scratched} {bytes : Bytes}
    (h : replayOf host d = .ok (.identity bytes)) :
    exists text, fixtureIdentity host (scratchDisk d) "" = .ok text ∧ bytes = utf8 text := by
  unfold replayOf at h
  cases hidentity : fixtureIdentity host (scratchDisk d) "" with
  | ok text =>
      rw [hidentity] at h
      cases h
      exact ⟨text, rfl, rfl⟩
  | error e =>
      rw [hidentity] at h
      cases e with
      | usage => cases h
      | topology e => cases h
      | standard what => cases h

/-- The tool prints the id of a machine whose identity is known. -/
theorem cmdId_of_identity {text : String} (hpair : isPair disk dir = .ok false)
    (h : fixtureIdentity host disk dir = .ok text) :
    cmdId host disk dir =
      .ok ⟨kOk, utf8 ("topo1:sha256:" ++ host.sha256Hex (utf8 text) ++ "\n")⟩ := by
  obtain ⟨model, hload, hidentity⟩ := Fallible.bind_eq_ok.mp h
  have hinput : readInput host disk dir = .ok (.machine model) := by
    unfold readInput
    rw [hpair, hload]
    rfl
  have hid : Input.id host (.machine model) =
      .ok ("topo1:sha256:" ++ host.sha256Hex (utf8 text)) := by
    show topo1 host model = _
    rw [topo1_eq, hidentity]
    rfl
  unfold cmdId
  rw [hinput, Fallible.ok_bind, hid]
  rfl

theorem joined_names : forall name, name ∈ kFixtureFiles -> join "" name = name := by decide

/-- What a capture has published is read as it was staged. -/
theorem fixtureIdentity_issued {env : Env} {base out : Out} {raw : Capture.RawSet}
    {files : List (String × Bytes)} {staged checked : Scratched} {id : Option String}
    (h : Issued host.sha256Hex env base raw files staged checked id out)
    (hhook : env.beforeValidate = .ok)
    (hbase : forall name, name ∈ kDataFiles -> base.entry name = none)
    (hshows : Shows disk dir out) {text : String}
    (hidentity : fixtureIdentity host (scratchDisk checked) "" = .ok text) :
    fixtureIdentity host disk dir = .ok text := by
  obtain ⟨model, hload, hidentity⟩ := Fallible.bind_eq_ok.mp hidentity
  refine Fallible.bind_eq_ok.mpr ⟨model, load_congr ?_ hload, hidentity⟩
  intro name hname
  have hdata : name ∈ kDataFiles := by
    revert name
    decide
  rw [joined_names name hname]
  unfold scratchDisk
  rw [h.find?_checked hhook hdata]
  cases hfile : (filled files).find? name with
  | some bytes =>
      have hentry := h.copied name bytes hfile
      refine (hshows.file name bytes (List.mem_cons_of_mem _ hname) ?_).symm
      unfold Out.file?
      rw [hentry]
  | none =>
      refine (hshows.absent name (List.mem_cons_of_mem _ hname) ?_).symm
      rw [h.others name hdata hfile, hbase name hdata]

/-- What a capture has left, wherever it is read. -/
theorem captured_identity {printer : Capture.Printer} {env : Env}
    (hreplay : forall d, env.replay d = replayOf host d) (hhook : env.beforeValidate = .ok)
    {out : Out} (hout : Removable out)
    (hharmless : forall name e, out.entry name = some e -> Capture.Consumer.Harmless name e)
    {diag : List Bytes} {outcome : CaptureOutcome}
    (h : (capture printer host.sha256Hex env (Run.start out [] diag)).result = .ok outcome)
    (hexit : outcome.exitCode = 0 ∨ outcome.exitCode = 2) :
    exists base m text, Capture.Consumer.Left printer host.sha256Hex base m
        (capture printer host.sha256Hex env (Run.start out [] diag)).state.out ∧
      (forall name, reserved name -> base.entry name = none) ∧
      (capture printer host.sha256Hex env (Run.start out [] diag)).state.out.entry "pair.json" =
        none ∧
      outcome.topologyId = m.topologyId ∧
      outcome.topologyId = some ("topo1:sha256:" ++ host.sha256Hex (utf8 text)) ∧
      forall disk dir, Shows disk dir
          (capture printer host.sha256Hex env (Run.start out [] diag)).state.out ->
        fixtureIdentity host disk dir = .ok text := by
  have hs : Removable (Run.start out [] diag).out := hout
  cases Capture.captured printer host.sha256Hex env hs with
  | refused _ hresult _ =>
      rw [h] at hresult
      cases hresult
      rcases hexit with hexit | hexit
      · cases hexit
      · cases hexit
  | thrown e hresult _ => cases h.symm.trans hresult
  | went htaken b hb hprepared hresult hend =>
      have hgo := hresult.symm.trans h
      have hfresh := hprepared.fresh (Capture.start_fresh out [] diag)
      obtain ⟨raw, files, staged, checked, hissued⟩ :=
        Capture.go_issued hfresh hprepared.ready (hprepared.room rfl) hgo hexit
      obtain ⟨m, hleft, hid, _⟩ :=
        Capture.Consumer.go_left hfresh hprepared.ready (hprepared.room rfl) hgo hexit
      rw [<- hend] at hissued hleft
      have hbase : forall name, reserved name -> b.out.entry name = none := by
        intro name hname
        rw [hb, Capture.Consumer.prepared_reserved hs htaken ⟨outcome, h⟩ name hname]
        show (out.entry name).filter _ = none
        cases hentry : out.entry name with
        | none => rfl
        | some e =>
            rcases hharmless name e hentry with ⟨_, hstuck⟩ | ⟨heq, _⟩
            · rw [Option.filter_some, hstuck]
              rfl
            · exact absurd (heq ▸ hname) Capture.Consumer.status_not_reserved
      have hnotReserved : ¬ reserved "pair.json" := by
        unfold reserved
        decide
      have hpair : (capture printer host.sha256Hex env
          (Run.start out [] diag)).state.out.entry "pair.json" = none := by
        have hbefore : b.out.entry "pair.json" = none := by
          rw [hprepared.other _ hnotReserved]
          show out.entry "pair.json" = none
          cases hentry : out.entry "pair.json" with
          | none => rfl
          | some e =>
              rcases hharmless _ e hentry with ⟨hreserved, _⟩ | ⟨heq, _⟩
              · exact absurd hreserved hnotReserved
              · exact absurd heq (by decide)
        by_contra hne
        rw [<- hbefore] at hne
        exact hnotReserved (hleft.changes.owned _ hne).1
      obtain ⟨bytes, hbytes, hissuedId⟩ := hissued.replayed
      rw [hreplay] at hbytes
      obtain ⟨text, hidentity, rfl⟩ := replayOf_eq_identity hbytes
      refine ⟨b.out, m, text, hleft, hbase, hpair, hid, hissuedId, ?_⟩
      intro disk dir hshows
      exact fixtureIdentity_issued hissued hhook
        (fun name hname => hbase name (Or.inl hname)) hshows
        hidentity

theorem isPair_of_absent {out : Out} (hshows : Shows disk dir out)
    (h : out.entry "pair.json" = none) : isPair disk dir = .ok false := by
  unfold isPair slotAt
  rw [hshows.absent _ List.mem_cons_self h]
  rfl

/--
A capture that returns no failure, into a directory of which it can remove every reserved name,
leaves a directory of which the tool prints the id that the capture returned.
-/
theorem cmdId_captured {printer : Capture.Printer} {env : Env}
    (hreplay : forall d, env.replay d = replayOf host d) (hhook : env.beforeValidate = .ok)
    {out : Out} (hout : Removable out)
    (hharmless : forall name e, out.entry name = some e -> Capture.Consumer.Harmless name e)
    {diag : List Bytes} {outcome : CaptureOutcome}
    (h : (capture printer host.sha256Hex env (Run.start out [] diag)).result = .ok outcome)
    (hexit : outcome.exitCode = 0 ∨ outcome.exitCode = 2)
    (hshows : Shows disk dir
      (capture printer host.sha256Hex env (Run.start out [] diag)).state.out) :
    exists id, outcome.topologyId = some id ∧
      cmdId host disk dir = .ok ⟨kOk, utf8 (id ++ "\n")⟩ := by
  obtain ⟨_, _, text, _, _, hpair, _, hid, hidentity⟩ :=
    captured_identity hreplay hhook hout hharmless h hexit
  exact ⟨_, hid, cmdId_of_identity (isPair_of_absent hshows hpair) (hidentity disk dir hshows)⟩

/-- A machine with one NIC, whose capture is replayed with the host of the tool. -/
def nicMachine : Env :=
  { Capture.plainMachine with
    xml := .ok (nicsXml [1])
    nics := .ok (utf8 (Topology.Compact.dump (nicsDoc [1])))
    replay := replayOf nicsHost }

theorem join_empty : forall name, name ∈ "pair.json" :: kFixtureFiles -> join "" name = name := by
  decide

/-- The files of the machine, whatever else was staged. -/
def StagedNic (d : Scratched) : Prop :=
  d.find? "hwloc.xml" = some (nicsXml [1]) ∧
    d.find? "nics.json" = some (utf8 (Topology.Compact.dump (nicsDoc [1]))) ∧
    d.find? "nvml.json" = none ∧ d.find? "links.json" = none

instance (d : Scratched) : Decidable (StagedNic d) := inferInstanceAs (Decidable (_ ∧ _ ∧ _ ∧ _))

theorem replayOf_stagedNic {d : Scratched} (h : StagedNic d) :
    replayOf nicsHost d = .ok (.identity (utf8 (Topology.Compact.dump (nicsIdentity 1)))) := by
  have hmem : [1] ∈ kBuses := by decide
  have hdisk : forall name, name ∈ "pair.json" :: kFixtureFiles ->
      scratchDisk d (join "" name) =
        .ok ((d.find? name).map fun bytes => ⟨true, some (.ok bytes)⟩) := by
    intro name hname
    rw [join_empty name hname]
    rfl
  have hholds : HoldsNics (scratchDisk d) "" [1] := by
    constructor
    · rw [hdisk _ (by decide), h.1]
      rfl
    · rw [hdisk _ (by decide), h.2.1]
      rfl
    · rw [hdisk _ (by decide), h.2.2.1]
      rfl
    · rw [hdisk _ (by decide), h.2.2.2]
      rfl
  have hload : load nicsHost (scratchDisk d) "" = .ok (nicsModel [1]) :=
    load_nics hmem List.mem_cons_self hholds
  have hidentity : identityOf nicsHost (nicsModel [1]) =
      .ok (Topology.Compact.dump (nicsIdentity 1)) := identityOf_nics hmem
  unfold replayOf fixtureIdentity
  rw [hload, Fallible.ok_bind, hidentity]

/-- The machine, where the replay of its own files is known. -/
def replayedNic : Env :=
  { nicMachine with
    replay := fun d =>
      if StagedNic d then .ok (.identity (utf8 (Topology.Compact.dump (nicsIdentity 1))))
      else replayOf nicsHost d }

theorem nicMachine_eq : nicMachine = replayedNic := by
  have hreplay : nicMachine.replay = replayedNic.replay := by
    funext d
    unfold replayedNic
    dsimp only
    split_ifs with hstaged
    · exact replayOf_stagedNic hstaged
    · rfl
  show { nicMachine with replay := nicMachine.replay } = replayedNic
  rw [hreplay]
  rfl

/-- The machine is captured, and leaves a directory. -/
theorem capture_nicMachine : exists outcome,
    (capture Capture.prettyPrinter nicsHost.sha256Hex nicMachine
      (Run.start .absent [] [])).result = .ok outcome ∧ outcome.exitCode = 0 ∧
    exists entries, Capture.Consumer.entriesOf (capture Capture.prettyPrinter nicsHost.sha256Hex
      nicMachine (Run.start .absent [] [])).state.out = some entries := by
  have hexit : ((capture Capture.prettyPrinter nicsHost.sha256Hex nicMachine
      (Run.start .absent [] [])).result.toOption.map CaptureOutcome.exitCode) = some 0 := by
    rw [nicMachine_eq]
    decide +kernel
  rcases Option.map_eq_some_iff.mp hexit with ⟨outcome, hresult, hzero⟩
  have hresult := Fallible.eq_ok_of_toOption hresult
  refine ⟨outcome, hresult, hzero, ?_⟩
  cases Capture.Command.contract (.capture nicMachine []) Capture.removable_absent hresult with
  | inl hrefused =>
      rw [hrefused.2.1] at hzero
      cases hzero
  | inr hcontract =>
      obtain ⟨m, hmanifest, _⟩ := hcontract.2.complete (Or.inl hzero)
      exact Capture.Consumer.entriesOf_of_file? hmanifest

/-- A directory at the root of a disk. -/
def rootDisk (out : Out) : Disk := fun path =>
  .ok ((out.file? path).map fun bytes => ⟨true, some (.ok bytes)⟩)

theorem shows_rootDisk (out : Out) : Shows (rootDisk out) "" out := by
  constructor
  · intro name bytes hname hfile
    rw [join_empty name hname]
    unfold rootDisk
    rw [hfile]
    rfl
  · intro name hname hentry
    rw [join_empty name hname]
    unfold rootDisk Out.file?
    rw [hentry]
    rfl

theorem cmdId_captured_nic : exists outcome id,
    (capture Capture.prettyPrinter nicsHost.sha256Hex nicMachine
      (Run.start .absent [] [])).result = .ok outcome ∧ outcome.topologyId = some id ∧
    cmdId nicsHost (rootDisk (capture Capture.prettyPrinter nicsHost.sha256Hex nicMachine
      (Run.start .absent [] [])).state.out) "" = .ok ⟨kOk, utf8 (id ++ "\n")⟩ := by
  rcases capture_nicMachine with ⟨outcome, hresult, hexit, _⟩
  rcases @cmdId_captured nicsHost _ "" Capture.prettyPrinter nicMachine (fun _ => rfl) rfl .absent
    Capture.removable_absent (fun name e h => by cases h) [] outcome hresult (Or.inl hexit)
    (shows_rootDisk _) with ⟨id, hid, hprinted⟩
  exact ⟨outcome, id, hresult, hid, hprinted⟩

end Captured

end Tool
end Ostia

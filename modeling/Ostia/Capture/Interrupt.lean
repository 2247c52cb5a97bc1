import Ostia.Capture.Visible

/-!
# Signals

A signal can arrive at any step of a run in its cleanup scope, and a second one at any step
of the handler of the first.  The handler unlinks what is tracked, the newest first.
-/

namespace Ostia
namespace Capture

open Foundation

/-- Where a handler can begin: where the signal arrives, and after each step of a handler. -/
inductive Handling (v : Run) : Run -> Prop
  | signal : Handling v v
  | nested {w x : Run} (h : Handling v w) (hx : x ∈ (runSignalCleanup w).visited) : Handling v x

/-!
## The handler
-/

section Handler

variable {base : Out} {names : String -> Prop} {s b : Run} {R : Exn -> Run -> Prop}

theorem tracked_unlinkPath (path : Path) (b : Run) :
    (unlinkPath path b).state.tracked = b.tracked := by
  cases path with
  | _ => rfl

/-- Unlinking a path of the run's own keeps the rest and brings back what was there. -/
theorem changes_unlinkPath (hbase : Ready base) {path : Path} (hpath : path.Own)
    (hb : Out.Changes base names b.out) :
    Out.Changes base names (unlinkPath path b).state.out ∧
      forall name, (unlinkPath path b).state.out.entry name = base.entry name ∨
        path ≠ .out name ∧ (unlinkPath path b).state.out.entry name = b.out.entry name := by
  cases path with
  | outDir => cases hpath
  | out name =>
      refine ⟨hb.unlink (hbase.clear name hpath), ?_⟩
      intro other
      by_cases hother : other = name
      · left
        rw [hother]
        exact hb.entry_unlink_self (hbase.clear name hpath)
      · right
        refine ⟨?_, Out.entry_unlink_of_ne hother⟩
        intro heq
        cases heq
        exact hother rfl
  | scratchDir => exact ⟨hb, fun name => Or.inr ⟨Path.noConfusion, rfl⟩⟩
  | scratch name => exact ⟨hb, fun name => Or.inr ⟨Path.noConfusion, rfl⟩⟩

/-- A step of the handler is one change of the state. -/
theorem holds_unlinkPath {P I : Run -> Prop} {Q : PUnit -> Run -> Prop} (path : Path)
    (hI : forall b, P b -> I (unlinkPath path b).state)
    (hQ : forall b, P b -> Q ⟨⟩ (unlinkPath path b).state) : (unlinkPath path).Holds P I Q R := by
  cases path with
  | _ => exact Effect.holds_modify hI hQ

/-- A handler that unlinks paths of the run's own leaves nothing of it under their names. -/
theorem holds_unlinkAll (names : String -> Prop) (hbase : Ready base) (paths : List Path)
    (hpaths : forall path, path ∈ paths -> path.Own) :
    (Effect.each unlinkPath paths).Holds
      (fun b => Out.Changes base names b.out ∧ b.tracked = s.tracked)
      (fun b => Out.Changes base names b.out ∧ b.tracked = s.tracked)
      (fun _ b => Out.Changes base names b.out ∧
        forall name, Path.out name ∈ paths -> b.out.entry name = base.entry name) R := by
  have hloop := Effect.holds_each (R := R) (I := fun b => Out.Changes base names b.out ∧
      b.tracked = s.tracked) (f := unlinkPath)
    (J := fun done b => (Out.Changes base names b.out ∧ b.tracked = s.tracked) ∧
      forall name, Path.out name ∈ done -> b.out.entry name = base.entry name) paths ?_ []
  · refine hloop.weaken (fun b hb => ⟨hb, ?_⟩) (fun _ hb => hb) (fun _ b hb => ⟨hb.1.1, hb.2⟩)
      (fun _ _ hb => hb)
    intro name hname
    cases hname
  · intro done path hpath
    apply holds_unlinkPath
    · rintro b ⟨⟨hchanges, htracked⟩, _⟩
      exact ⟨(changes_unlinkPath hbase (hpaths path hpath) hchanges).1,
        (tracked_unlinkPath path b).trans htracked⟩
    · rintro b ⟨⟨hchanges, htracked⟩, hdone⟩
      have hstep := changes_unlinkPath hbase (hpaths path hpath) hchanges
      refine ⟨⟨hstep.1, (tracked_unlinkPath path b).trans htracked⟩, ?_⟩
      intro name hname
      rcases hstep.2 name with hname' | ⟨hne, hsame⟩
      · exact hname'
      · rw [hsame]
        rcases List.mem_append.mp hname with hname | hname
        · exact hdone name hname
        · exact absurd (List.mem_singleton.mp hname).symm hne

/-- A state of a handler, or the state it began in. -/
structure Handled (base : Out) (v b : Run) : Prop where
  tracked : b.tracked = v.tracked
  changes : Out.Changes base (fun name => Path.out name ∈ v.tracked) b.out
  manifest : b.out.entry "manifest.json" = none ∨
    v.tracked.getLast? = some (.out "manifest.json")

/-- The changes of a run without a manifest. -/
theorem changes_ne_manifest (hbase : Ready base) (hb : Out.Changes base names b.out)
    (hnone : b.out.entry "manifest.json" = none) :
    Out.Changes base (fun name => names name ∧ name ≠ "manifest.json") b.out := by
  refine ⟨hb.directory, ?_⟩
  intro name hne
  refine ⟨⟨(hb.owned name hne).1, ?_⟩, (hb.owned name hne).2⟩
  rintro rfl
  exact hne (hnone.trans hbase.manifest.symm)

theorem manifest_none_of_changes (hbase : Ready base)
    (hb : Out.Changes base (fun name => names name ∧ name ≠ "manifest.json") b.out) :
    b.out.entry "manifest.json" = none := by
  by_contra hne
  have hdiffers : b.out.entry "manifest.json" ≠ base.entry "manifest.json" := by
    rw [hbase.manifest]
    exact hne
  exact (hb.owned _ hdiffers).1.2 rfl

/--
From the first step of the handler on no manifest is there; at its end there is nothing of
the run.
-/
theorem holds_runSignalCleanup {v : Run} (hbase : Ready base)
    (hpaths : forall path, path ∈ v.tracked -> path.Own) (hs : Handled base v s) :
    runSignalCleanup.Holds (· = s)
      (fun b => Handled base v b ∧ b.out.entry "manifest.json" = none)
      (fun _ b => forall name, b.out.entry name = base.entry name) R := by
  apply Effect.holds_get_bind
  rintro b rfl
  have hI : forall c : Run, Out.Changes base (fun name => Path.out name ∈ v.tracked ∧
      name ≠ "manifest.json") c.out ∧ c.tracked = b.tracked ->
      Handled base v c ∧ c.out.entry "manifest.json" = none := by
    rintro c ⟨hc, htracked⟩
    have hnone := manifest_none_of_changes hbase hc
    exact ⟨⟨htracked.trans hs.tracked, hc.mono (fun _ h => h.1), Or.inl hnone⟩, hnone⟩
  rw [hs.tracked]
  rcases hs.manifest with hnone | hlast
  · refine (holds_unlinkAll (s := b) (fun name => Path.out name ∈ v.tracked ∧
      name ≠ "manifest.json") hbase v.tracked.reverse ?_).weaken ?_ hI ?_ (fun _ _ hb => hb)
    · intro path hpath
      exact hpaths path (List.mem_reverse.mp hpath)
    · rintro c rfl
      exact ⟨changes_ne_manifest hbase hs.changes hnone, rfl⟩
    · rintro _ c ⟨hc, hgone⟩ name
      by_contra hne
      exact hne (hgone name (List.mem_reverse.mpr (hc.owned name hne).1.1))
  · rcases List.getLast?_eq_some_iff.mp hlast with ⟨first, hfirst⟩
    have hmanifest : base.Clear "manifest.json" := Or.inl hbase.manifest
    rw [hfirst, List.reverse_append]
    refine Effect.Holds.bind (Q := fun _ c => Out.Changes base (fun name =>
      Path.out name ∈ v.tracked ∧ name ≠ "manifest.json") c.out ∧ c.tracked = b.tracked)
      (holds_unlinkPath (.out "manifest.json") ?_ ?_) (fun _ => ?_)
    · rintro c rfl
      refine hI _ ⟨changes_ne_manifest hbase (hs.changes.unlink hmanifest) ?_, rfl⟩
      exact (hs.changes.entry_unlink_self hmanifest).trans hbase.manifest
    · rintro c rfl
      refine ⟨changes_ne_manifest hbase (hs.changes.unlink hmanifest) ?_, rfl⟩
      exact (hs.changes.entry_unlink_self hmanifest).trans hbase.manifest
    · refine (holds_unlinkAll (s := b) (fun name => Path.out name ∈ v.tracked ∧
        name ≠ "manifest.json") hbase first.reverse ?_).weaken (fun _ hc => hc) hI ?_
        (fun _ _ hb => hb)
      · intro path hpath
        refine hpaths path ?_
        rw [hfirst]
        exact List.mem_append_left _ (List.mem_reverse.mp hpath)
      · rintro _ c ⟨hc, hgone⟩ name
        by_contra hne
        rcases (hc.owned name hne).1 with ⟨htracked, hnot⟩
        rw [hfirst] at htracked
        rcases List.mem_append.mp htracked with htracked | htracked
        · exact hne (hgone name (List.mem_reverse.mpr htracked))
        · cases List.mem_singleton.mp htracked
          exact hnot rfl

/-- However often signals arrive, the last handler leaves nothing of the run. -/
theorem Handling.clean {v w : Run} (h : Handling v w) (hbase : Ready base)
    (hpaths : forall path, path ∈ v.tracked -> path.Own) (hv : Handled base v v) :
    (forall x, x ∈ (runSignalCleanup w).visited -> x.out.entry "manifest.json" = none) ∧
      forall name, (runSignalCleanup w).state.out.entry name = base.entry name := by
  have hw : Handled base v w := by
    induction h with
    | signal => exact hv
    | nested hw hx ih =>
        exact ((holds_runSignalCleanup (R := fun _ _ => False) hbase hpaths ih _ rfl).1 _ hx).1
  have hrun := holds_runSignalCleanup (R := fun _ _ => False) hbase hpaths hw
  rcases hrun.returns rfl with ⟨_, _, hend⟩
  exact ⟨fun x hx => ((hrun w rfl).1 x hx).2, hend⟩

end Handler

/-!
## A run in its scope
-/

/-- What a signal leaves: nothing of the run, or the files of a run that is released. -/
def Leaves (printer : Printer) (sha256Hex : Bytes -> String) (base : Out) (v : Run)
    (out : Out) : Prop :=
  (forall name, out.entry name = base.entry name) ∨
    v.tracked = [] ∧ Backed printer sha256Hex out

/-- A signal can arrive in a state: no handler shows a manifest after its first step. -/
def Interruptible (printer : Printer) (sha256Hex : Bytes -> String) (base : Out) (v : Run) :
    Prop :=
  forall w, Handling v w ->
    (forall x, x ∈ (runSignalCleanup w).visited -> x.out.file? "manifest.json" = none) ∧
      Leaves printer sha256Hex base v (runSignalCleanup w).state.out

section Scope

variable {printer : Printer} {sha256Hex : Bytes -> String} {env : Env} {base : Out}
  {n code : Nat} {s v : Run}

theorem file?_of_none {out : Out} {name : String} (h : out.entry name = none) :
    out.file? name = none := by
  unfold Out.file?
  rw [h]

theorem Guarded.interruptible (hbase : Ready base) (h : Guarded base [] n v) :
    Interruptible printer sha256Hex base v := by
  intro w hw
  have hpaths : forall path, path ∈ v.tracked -> path.Own := by
    intro path hpath
    rcases h.within.paths path hpath with hnil | hown
    · cases hnil
    · exact hown
  have hv : Handled base v v := ⟨rfl, h.within.changes.mono (fun _ hname => hname.2), h.manifest⟩
  rcases hw.clean hbase hpaths hv with ⟨hvisited, hend⟩
  exact ⟨fun x hx => file?_of_none (hvisited x hx), Or.inl hend⟩

/-- When nothing is tracked the handler does nothing. -/
theorem runSignalCleanup_of_nil (h : v.tracked = []) : runSignalCleanup v = ⟨.ok ⟨⟩, v, []⟩ := by
  change Effect.each unlinkPath v.tracked.reverse v = _
  rw [h]
  rfl

theorem interruptible_of_nil (h : v.tracked = [])
    (hleaves : Leaves printer sha256Hex base v v.out) :
    Interruptible printer sha256Hex base v := by
  have hrun := runSignalCleanup_of_nil h
  intro w hw
  have hsame : w = v := by
    induction hw with
    | signal => rfl
    | nested _ hx ih =>
        rw [ih, hrun] at hx
        cases hx
  rw [hsame, hrun]
  refine ⟨?_, hleaves⟩
  intro x hx
  cases hx

theorem within_guarded (hbase : Ready base) (h : Within base [] [] n v) : Guarded base [] n v := by
  refine ⟨h.records_mono ?_, Or.inl (h.manifest_none hbase)⟩
  intro name hname
  cases hname

/-- The end of a run leaves nothing of it, or its files. -/
theorem Finished.leaves {outcome : CaptureOutcome} {stop : Stop}
    (h : Finished base [] n printer (exitFor s.leakOrSchema s.otherFailure s.isPartial) s
      outcome v) (hs : Judged base sha256Hex env stop s) :
    (forall name, v.out.entry name = base.entry name) ∨ Backed printer sha256Hex v.out := by
  cases h with
  | first formed c hreleased _ => exact Or.inr (hreleased.backed hs)
  | again formed _ hagain _ =>
      rcases hagain.record with ⟨d, hmanifest, _, hrecorded⟩ | hnone
      · refine Or.inr ⟨d.manifest, file?_eq_of_entry hrecorded.shows, ?_⟩
        rw [hmanifest]
        intro name hash hhash
        cases hhash
      · left
        intro name
        by_contra hne
        rcases (hagain.within.reserved.owned name hne).1 with hdata | hrecord
        · exact hne (hagain.retracted name hdata)
        · exact hne (hnone name hrecord)

/-- Every step of a run in its scope, and the end of its scope, can be interrupted. -/
theorem go_interruptible (hs : Fresh s) (hbase : Ready s.out) (htracked : s.tracked = []) :
    (forall v, v = s ∨ v ∈ (go printer sha256Hex env s.tracked.length s).visited ->
      Interruptible printer sha256Hex s.out v) ∧
    forall outcome, (go printer sha256Hex env s.tracked.length s).result = .ok outcome ->
      Interruptible printer sha256Hex s.out
        (inScope (go printer sha256Hex env) s).state := by
  have hroom : s.tracked.length + 18 ≤ kMaxTracked := by
    rw [htracked]
    decide
  have hgo := holds_go printer sha256Hex env hs hbase hroom s rfl
  have hstart := within_start hs hbase
  have hjudged := (staging_returns sha256Hex env hs hbase).2
  rw [htracked] at hgo hstart
  rw [htracked]
  refine ⟨?_, ?_⟩
  · rintro v (rfl | hv)
    · exact (within_guarded hbase hstart).interruptible hbase
    · rcases hgo.1 v hv with hwithin | hmoment
      · exact (within_guarded hbase hwithin).interruptible hbase
      · cases hmoment with
        | guarded hguarded _ => exact hguarded.interruptible hbase
        | released formed c hreleased =>
            have hnil : v.tracked = [] := by
              rw [hreleased.released]
            exact interruptible_of_nil hnil (Or.inr ⟨hnil, hreleased.backed hjudged⟩)
  · intro outcome houtcome
    have hend := hgo.2
    have hscope : (inScope (go printer sha256Hex env) s).state =
        { (go printer sha256Hex env s.tracked.length s).state with
          tracked := (go printer sha256Hex env s.tracked.length s).state.tracked.take
            s.tracked.length } := rfl
    rw [htracked] at hscope
    rw [houtcome] at hend
    rw [hscope]
    exact interruptible_of_nil rfl ((hend.leaves hjudged).imp id (fun h => ⟨rfl, h⟩))

end Scope

/-!
## The id of a machine
-/

/-- The state of a run that makes an id when its directory and all its names are tracked. -/
def idStart (diag : List Bytes) : Run :=
  (Effect.run trackAll { Run.start .absent [] diag with out := .directory OrdMap.empty }).2

/-- The paths that stay tracked while the directory of an id exists. -/
def idPaths : List Path := .outDir :: (kDataFiles ++ kRecordFiles).map Path.out

theorem run_trackForCleanup (path : Path) {s : Run} (h : s.tracked.length < kMaxTracked) :
    Effect.run (trackForCleanup path) s = (.ok ⟨⟩, { s with tracked := s.tracked ++ [path] }) := by
  have hstep : Effect.run (trackForCleanup path) s = (.ok ⟨⟩, if s.tracked.length ≥ kMaxTracked
    then s else { s with tracked := s.tracked ++ [path] }) := rfl
  rw [hstep, if_neg (Nat.not_le.mpr h)]

theorem run_trackNames (names : List String) {s : Run}
    (h : s.tracked.length + names.length ≤ kMaxTracked) :
    Effect.run (Effect.each (fun name => trackForCleanup (.out name)) names) s =
      (.ok ⟨⟩, { s with tracked := s.tracked ++ names.map Path.out }) := by
  induction names generalizing s with
  | nil =>
      rw [List.map_nil, List.append_nil]
      rfl
  | cons name rest ih =>
      rw [List.length_cons, ← Nat.succ_add_eq_add_succ] at h
      have hfirst := run_trackForCleanup (.out name) (s := s)
        ((Nat.lt_succ_self _).trans_le ((Nat.le_add_right _ _).trans h))
      refine (Effect.run_bind_of_run _ hfirst).trans ?_
      rw [ih]
      · rw [List.append_assoc]
        rfl
      · change (s.tracked ++ [Path.out name]).length + rest.length ≤ _
        rw [List.length_append, List.length_singleton]
        exact h

theorem run_trackAll {s : Run} (h : s.tracked = []) :
    Effect.run trackAll s = (.ok ⟨⟩, { s with tracked := idPaths }) := by
  have hfirst := run_trackForCleanup .outDir (s := s) (by
    rw [h]
    decide)
  have hdata := run_trackNames kDataFiles (s := { s with tracked := [.outDir] }) (by
    change 1 + kDataFiles.length ≤ kMaxTracked
    decide)
  have hrecords := run_trackNames kRecordFiles
    (s := { s with tracked := [.outDir] ++ kDataFiles.map Path.out }) (by
    change 6 + kRecordFiles.length ≤ kMaxTracked
    decide)
  unfold trackAll
  rw [Effect.run_bind_of_run _ hfirst, h, List.nil_append, Effect.run_bind_of_run _ hdata,
    hrecords]
  rfl

theorem idStart_eq (diag : List Bytes) :
    idStart diag = Run.start (.directory OrdMap.empty) idPaths diag := by
  unfold idStart
  rw [run_trackAll rfl]
  rfl

/-- The directory of an id is gone, or it holds files of the run only. -/
structure IdState (b : Run) : Prop where
  tracked : idPaths <+: b.tracked
  paths : forall path, path ∈ b.tracked -> path = .outDir ∨ path.Own
  out : b.out = .absent ∨ Out.Changes (.directory OrdMap.empty) reserved b.out

section Id

variable {printer : Printer} {sha256Hex : Bytes -> String} {env : Env} {b v w : Run}
  {R : Exn -> Run -> Prop}

theorem ready_new : Ready (.directory OrdMap.empty) := ready_empty rfl

theorem rmdir_of_empty {out : Out} (h : out.IsDirectory)
    (hnone : forall name, out.entry name = none) :
    out.rmdir = .absent := by
  cases out with
  | absent => cases h
  | other => cases h
  | directory files =>
      have hnil : files.entries = [] := by
        rw [List.eq_nil_iff_forall_not_mem]
        rintro ⟨name, e⟩ hmem
        have hfind := OrdMap.mem_entries.mp hmem
        rw [show files.find? name = none from hnone name] at hfind
        cases hfind
      change (if files.entries.isEmpty then Out.absent else _) = _
      rw [if_pos (List.isEmpty_iff.mpr hnil)]

/-- Removing an empty directory, or failing to remove another, changes nothing else. -/
theorem rmdir_cases (out : Out) : out.rmdir = .absent ∨ out.rmdir = out := by
  cases out with
  | absent => exact Or.inl rfl
  | other => exact Or.inr rfl
  | directory files =>
      change (if _ then _ else _) = _ ∨ (if _ then _ else _) = _
      split_ifs
      · exact Or.inl rfl
      · exact Or.inr rfl

theorem unlink_absent (name : String) : Out.unlink .absent name = .absent := rfl

/-- A step of the handler keeps the state of an id, and what is gone stays gone. -/
theorem IdState.unlinkPath {path : Path} (h : IdState b) (hpath : path ∈ b.tracked) :
    IdState (unlinkPath path b).state ∧
      (b.out = .absent -> (Capture.unlinkPath path b).state.out = .absent) := by
  have hout : ((Capture.unlinkPath path b).state.out = .absent ∨
      Out.Changes (.directory OrdMap.empty) reserved (Capture.unlinkPath path b).state.out) ∧
      (b.out = .absent -> (Capture.unlinkPath path b).state.out = .absent) := by
    rcases h.paths path hpath with rfl | hown
    · change (b.out.rmdir = .absent ∨ Out.Changes _ _ b.out.rmdir) ∧
        (b.out = .absent -> b.out.rmdir = .absent)
      refine ⟨?_, ?_⟩
      · rcases rmdir_cases b.out with hgone | hsame
        · exact Or.inl hgone
        · rw [hsame]
          exact h.out
      · intro hgone
        rw [hgone]
        rfl
    · rcases h.out with hgone | hchanges
      · have habsent : (Capture.unlinkPath path b).state.out = .absent := by
          cases path with
          | out name => exact (congrArg (Out.unlink · name) hgone).trans (unlink_absent name)
          | outDir => cases hown
          | scratchDir => exact hgone
          | scratch name => exact hgone
        exact ⟨Or.inl habsent, fun _ => habsent⟩
      · refine ⟨Or.inr (changes_unlinkPath ready_new hown hchanges).1, ?_⟩
        intro hgone
        rw [hgone] at hchanges
        cases hchanges.directory
  refine ⟨⟨?_, ?_, hout.1⟩, hout.2⟩
  · rw [tracked_unlinkPath]
    exact h.tracked
  · rw [tracked_unlinkPath]
    exact h.paths

/-- A handler that unlinks the tracked paths but the first leaves the directory empty. -/
theorem holds_unlinkId (paths : List Path) (tracked : List Path)
    (hpaths : forall path, path ∈ paths -> path ∈ tracked) :
    (Effect.each unlinkPath paths).Holds (fun b => IdState b ∧ b.tracked = tracked)
      (fun b => IdState b ∧ b.tracked = tracked)
      (fun _ b => (IdState b ∧ b.tracked = tracked) ∧
        (b.out = .absent ∨ forall name, Path.out name ∈ paths -> b.out.entry name = none)) R := by
  have hloop := Effect.holds_each (R := R) (I := fun b => IdState b ∧ b.tracked = tracked)
    (f := unlinkPath) (J := fun done b => (IdState b ∧ b.tracked = tracked) ∧
      (b.out = .absent ∨ forall name, Path.out name ∈ done -> b.out.entry name = none)) paths ?_ []
  · refine hloop.weaken (fun b hb => ⟨hb, Or.inr ?_⟩) (fun _ hb => hb) (fun _ b hb => hb)
      (fun _ _ hb => hb)
    intro name hname
    cases hname
  · intro done path hpath
    have hstep : forall b, IdState b ∧ b.tracked = tracked ->
        IdState (unlinkPath path b).state ∧ (unlinkPath path b).state.tracked = tracked := by
      rintro b ⟨hb, htracked⟩
      have hmem : path ∈ b.tracked := by
        rw [htracked]
        exact hpaths path hpath
      exact ⟨(hb.unlinkPath hmem).1, (tracked_unlinkPath path b).trans htracked⟩
    apply holds_unlinkPath
    · rintro b ⟨hb, _⟩
      exact hstep b hb
    · rintro b ⟨hb, hdone⟩
      refine ⟨hstep b hb, ?_⟩
      have hmem : path ∈ b.tracked := by
        rw [hb.2]
        exact hpaths path hpath
      rcases hb.1.out with hgone | hchanges
      · exact Or.inl ((hb.1.unlinkPath hmem).2 hgone)
      have hdirectory : b.out ≠ .absent := by
        intro hgone
        rw [hgone] at hchanges
        cases hchanges.directory
      have hdone' := hdone.resolve_left hdirectory
      rcases hb.1.paths path hmem with rfl | hown
      · rcases rmdir_cases b.out with hgone | hsame
        · exact Or.inl hgone
        · right
          intro name hname
          change b.out.rmdir.entry name = none
          rw [hsame]
          refine hdone' name ?_
          rcases List.mem_append.mp hname with hname | hname
          · exact hname
          · cases List.mem_singleton.mp hname
      · right
        intro name hname
        rcases (changes_unlinkPath ready_new hown hchanges).2 name with hbase | ⟨hne, hsame⟩
        · exact hbase
        · rw [hsame]
          rcases List.mem_append.mp hname with hname | hname
          · exact hdone' name hname
          · exact absurd (List.mem_singleton.mp hname).symm hne

/-- The handler removes the directory of an id. -/
theorem holds_cleanupId (hb : IdState b) :
    runSignalCleanup.Holds (· = b) IdState (fun _ c => c.out = .absent) R := by
  apply Effect.holds_get_bind
  rintro c rfl
  rcases hb.tracked with ⟨more, hmore⟩
  have hsplit : c.tracked.reverse =
      ((kDataFiles ++ kRecordFiles).map Path.out ++ more).reverse ++ [.outDir] := by
    rw [← hmore]
    exact List.reverse_cons
  have hrest := holds_unlinkId (R := R)
    ((kDataFiles ++ kRecordFiles).map Path.out ++ more).reverse c.tracked (by
      intro path hpath
      rw [← hmore]
      exact List.mem_cons_of_mem _ (List.mem_reverse.mp hpath))
  have hwhole : Effect.Holds (Effect.each unlinkPath
      ((kDataFiles ++ kRecordFiles).map Path.out ++ more).reverse >>= fun _ =>
      Effect.each unlinkPath [.outDir]) (· = c) IdState (fun _ d => d.out = .absent) R := by
    refine Effect.Holds.bind (hrest.weaken ?_ (fun _ hd => hd.1) (fun _ _ hd => hd)
      (fun _ _ hd => hd)) (fun _ => ?_)
    · rintro d rfl
      exact ⟨hb, rfl⟩
    · have hlast : (unlinkPath .outDir).Holds (fun d => (IdState d ∧ d.tracked = c.tracked) ∧
          (d.out = .absent ∨ forall name, Path.out name ∈
            ((kDataFiles ++ kRecordFiles).map Path.out ++ more).reverse ->
            d.out.entry name = none)) IdState (fun _ d => d.out = .absent) R := by
        apply holds_unlinkPath
        · rintro d ⟨⟨hd, htracked⟩, _⟩
          refine (hd.unlinkPath ?_).1
          rw [htracked, ← hmore]
          exact List.mem_cons_self
        · rintro d ⟨⟨hd, _⟩, hgone⟩
          change d.out.rmdir = .absent
          rcases hd.out with habsent | hchanges
          · rw [habsent]
            rfl
          rcases hgone with habsent | hgone
          · rw [habsent]
            rfl
          refine rmdir_of_empty hchanges.directory ?_
          intro name
          by_contra hne
          have hreserved := (hchanges.owned name hne).1
          refine hne (hgone name (List.mem_reverse.mpr (List.mem_append_left _ ?_)))
          exact List.mem_map_of_mem (List.mem_append.mpr hreserved)
      refine hlast.bind (fun _ => ?_)
      exact Effect.holds_pure (fun _ hd => hd)
  rw [hsplit]
  intro d hd
  rw [Effect.each_append]
  exact hwhole d hd

theorem Handling.gone (h : Handling v w) (hv : IdState v) :
    (runSignalCleanup w).state.out = .absent := by
  have hw : IdState w := by
    induction h with
    | signal => exact hv
    | nested _ hx ih => exact (holds_cleanupId (R := fun _ _ => False) ih _ rfl).1 _ hx
  rcases (holds_cleanupId (R := fun _ _ => False) hw).returns rfl with ⟨_, _, hend⟩
  exact hend

theorem mem_idPaths {path : Path} (h : path ∈ idPaths) : path = .outDir ∨ path.Own := by
  rcases List.mem_cons.mp h with h | h
  · exact Or.inl h
  · rcases List.mem_map.mp h with ⟨name, hname, rfl⟩
    exact Or.inr (List.mem_append.mp hname)

theorem idState_of_within {n : Nat}
    (h : Within (.directory OrdMap.empty) idPaths kRecordFiles n b) : IdState b := by
  refine ⟨h.marked, ?_, Or.inr h.reserved⟩
  intro path hpath
  rcases h.paths path hpath with hmark | hown
  · exact mem_idPaths hmark
  · exact Or.inr hown

theorem idState_of_released (hchanges : Out.Changes (.directory OrdMap.empty) reserved b.out)
    (htracked : b.tracked = idPaths) : IdState b := by
  refine ⟨?_, ?_, Or.inr hchanges⟩
  · rw [htracked]
  · rw [htracked]
    exact fun path hpath => mem_idPaths hpath

/-- What was removed from the directory does not matter. -/
theorem IdState.removed (h : IdState b) (gone : List String) :
    IdState { b with out := gone.foldl Out.remove b.out } := by
  induction gone generalizing b with
  | nil => exact h
  | cons name rest ih =>
      have hfirst : IdState { b with out := b.out.remove name } := by
        refine ⟨h.tracked, h.paths, ?_⟩
        rcases h.out with habsent | hchanges
        · left
          change b.out.remove name = .absent
          rw [habsent]
          rfl
        · exact Or.inr (hchanges.remove (Or.inl rfl))
      exact ih hfirst

theorem Finished.marked {base : Out} {mark : List Path} {n code : Nat} {s : Run}
    {outcome : CaptureOutcome} (h : Finished base mark n printer code s outcome b) :
    mark <+: b.tracked := by
  cases h with
  | first formed c hreleased _ =>
      rw [hreleased.released]
  | again formed _ hagain _ => exact hagain.within.marked

/-- The scope of a capture inside of the scope of an id. -/
theorem holds_idScope (diag : List Bytes) :
    (inScope (go printer sha256Hex env)).Holds
      (· = Run.start (.directory OrdMap.empty) idPaths diag) IdState
      (fun _ _ => True) (fun _ _ => True) := by
  apply Effect.holds_get_bind
  intro s hs
  have hfresh : Fresh s := by
    rw [hs]
    exact start_fresh _ _ _
  have hbase : Ready s.out := by
    rw [hs]
    exact ready_new
  have hroom : s.tracked.length + 18 ≤ kMaxTracked := by
    rw [hs]
    change idPaths.length + 18 ≤ kMaxTracked
    decide
  have hgo := holds_go printer sha256Hex env hfresh hbase hroom
  have hout : s.out = .directory OrdMap.empty := by
    rw [hs]
    rfl
  have htracked : s.tracked = idPaths := by
    rw [hs]
    rfl
  rw [htracked] at hgo ⊢
  rw [hout] at hgo
  refine Effect.Holds.ensure (Q := fun _ c => Out.Changes (.directory OrdMap.empty) reserved
    c.out ∧ idPaths <+: c.tracked) (R := fun _ c => Out.Changes (.directory OrdMap.empty)
    reserved c.out ∧ idPaths <+: c.tracked) (hgo.weaken (fun _ hc => hc) ?_
    (fun _ c hc => ⟨hc.changes, hc.marked⟩) (fun _ _ hc => hc.2)) ?_ ?_
  · rintro c (hwithin | hmoment)
    · refine idState_of_within (hwithin.records_mono ?_)
      intro name hname
      cases hname
    · cases hmoment with
      | guarded hguarded _ => exact idState_of_within hguarded.within
      | released formed d hreleased =>
          rw [hreleased.released]
          exact idState_of_released hreleased.recording.within.reserved rfl
  · rintro _ c ⟨hchanges, hmarked⟩
    exact ⟨idState_of_released hchanges (List.prefix_iff_eq_take.mp hmarked).symm, trivial⟩
  · rintro _ c ⟨hchanges, hmarked⟩
    exact ⟨idState_of_released hchanges (List.prefix_iff_eq_take.mp hmarked).symm, trivial⟩

/-- Every state of a capture for an id. -/
theorem captureId_states (diag : List Bytes)
    (hv : v = idStart diag ∨
      v ∈ (captureId printer sha256Hex env (idStart diag)).visited) : IdState v := by
  rw [idStart_eq] at hv
  rcases hv with rfl | hv
  · exact idState_of_released (Out.Changes.refl ready_new.directory) rfl
  have hcapture : Effect.Holds (captureId printer sha256Hex env)
      (· = Run.start (.directory OrdMap.empty) idPaths diag) IdState (fun _ _ => True)
      (fun _ _ => True) := by
    refine Effect.Holds.bind (Q := fun _ _ => True) ?_ (fun _ => ?_)
    · -- The directory is new, so that it is taken as it is.
      rintro b rfl
      exact holds_idScope diag _ rfl
    · refine Effect.holds_ofExcept_bind (fun _ _ _ _ => trivial) (fun _ _ => ?_)
      exact Effect.holds_pure (fun _ _ => trivial)
  exact (hcapture _ rfl).1 v hv

end Id

/--
A signal at any step of a run in its scope, or at any step of a handler, leaves nothing of
the run or, after the release, its manifest with the files it lists; a signal while an id is
made leaves no directory, also when some of its names are removed already.
-/
theorem signals_clean (printer : Printer) (sha256Hex : Bytes -> String) (env : Env)
    (diag : List Bytes) :
    (forall out, Removable out ->
      (prepareOut env (Run.start out [] diag)).result = .ok true ->
      forall s, s = (prepareOut env (Run.start out [] diag)).state ->
      (forall v, v = s ∨ v ∈ (go printer sha256Hex env s.tracked.length s).visited ->
        Interruptible printer sha256Hex s.out v) ∧
      forall outcome, (go printer sha256Hex env s.tracked.length s).result = .ok outcome ->
        Interruptible printer sha256Hex s.out
          (inScope (go printer sha256Hex env) s).state) ∧
    forall v, v = idStart diag ∨
        v ∈ (captureId printer sha256Hex env (idStart diag)).visited ->
      forall (gone : List String) w, Handling { v with out := gone.foldl Out.remove v.out } w ->
        (runSignalCleanup w).state.out = .absent := by
  refine ⟨?_, ?_⟩
  · rintro out hout htaken s rfl
    have hprepare := (holds_prepareOut env (s := Run.start out [] diag) (I := fun _ => True) hout
      (fun _ _ => trivial) (fun _ _ _ _ => trivial) (fun _ _ => trivial) _ rfl).2
    rw [htaken] at hprepare
    rcases hprepare with ⟨_, _, hprepared⟩ | ⟨hfalse, _⟩
    · exact go_interruptible (hprepared.fresh (start_fresh _ _ _)) hprepared.ready
        hprepared.tracked
    · cases hfalse
  · intro v hv gone w hw
    exact hw.gone ((captureId_states diag hv).removed gone)

/-- A capture into a new directory, and the id of the same machine. -/
theorem signals_clean_plain :
    (forall v, v ∈ (go prettyPrinter (fun _ => "00") plainMachine 0
        (prepareOut plainMachine (Run.start .absent [] [])).state).visited ->
      Interruptible prettyPrinter (fun _ => "00")
        (prepareOut plainMachine (Run.start .absent [] [])).state.out v) ∧
    (runSignalCleanup (idStart [])).state.out = .absent := by
  rcases signals_clean prettyPrinter (fun _ => "00") plainMachine [] with ⟨hcapture, hid⟩
  refine ⟨?_, hid (idStart []) (Or.inl rfl) [] _ .signal⟩
  intro v hv
  have htaken : (prepareOut plainMachine (Run.start .absent [] [])).result = .ok true := rfl
  exact (hcapture .absent removable_absent htaken _ rfl).1 v (Or.inr hv)

end Capture
end Ostia

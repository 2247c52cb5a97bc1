import Ostia.Capture.Scope

/-!
# How the staging of a run ends

The staging of a run stops at the first step that fails, or publishes every file.  The flags
of the run say which of the two it was and, of a failure, of which kind.
-/

namespace Ostia
namespace Capture

open Foundation

/-- A later state of a run that differs in its diagnostics, tracked paths and scratch only. -/
structure Quiet (s b : Run) : Prop where
  out : b.out = s.out
  written : b.written = s.written
  manifest : b.manifest = s.manifest
  leakOrSchema : b.leakOrSchema = s.leakOrSchema
  otherFailure : b.otherFailure = s.otherFailure
  isPartial : b.isPartial = s.isPartial

instance : IsPreorder Run Quiet where
  refl _ := ⟨rfl, rfl, rfl, rfl, rfl, rfl⟩
  trans _ _ _ h h' := ⟨h'.out.trans h.out, h'.written.trans h.written,
    h'.manifest.trans h.manifest, h'.leakOrSchema.trans h.leakOrSchema,
    h'.otherFailure.trans h.otherFailure, h'.isPartial.trans h.isPartial⟩

section Quiet

variable {env : Env} {sha256Hex : Bytes -> String}

theorem quiet_addLine (line : Bytes) : (addLine line).Follows Quiet :=
  Effect.follows_modify (fun _ => ⟨rfl, rfl, rfl, rfl, rfl, rfl⟩)

theorem quiet_addLines (lines : List Bytes) : (addLines lines).Follows Quiet :=
  Effect.Follows.each quiet_addLine lines

theorem quiet_trackForCleanup (path : Path) : (trackForCleanup path).Follows Quiet := by
  apply Effect.follows_modify
  intro s
  split_ifs
  · exact refl_of Quiet s
  · exact ⟨rfl, rfl, rfl, rfl, rfl, rfl⟩

theorem quiet_makeScratch : (makeScratch env).Follows Quiet := by
  refine (Effect.follows_throwIf _ _).bind (fun _ => ?_)
  refine Effect.Follows.bind ?_ (fun _ => quiet_trackForCleanup _)
  exact Effect.follows_modify (fun _ => ⟨rfl, rfl, rfl, rfl, rfl, rfl⟩)

theorem quiet_stage (file : String × Bytes) : (stage env file).Follows Quiet := by
  refine (quiet_trackForCleanup _).bind (fun _ => ?_)
  refine (Effect.follows_throwIf _ _).bind (fun _ => ?_)
  exact Effect.follows_modify (fun _ => ⟨rfl, rfl, rfl, rfl, rfl, rfl⟩)

theorem quiet_noteNodeIndex : (noteNodeIndex env).Follows Quiet := by
  unfold noteNodeIndex
  split
  · exact quiet_addLine _
  · exact Effect.follows_pure _

theorem quiet_readLinks (links : Links) : (readLinks links).Follows Quiet := by
  cases links with
  | unreadable => exact (quiet_addLine _).bind (fun _ => Effect.follows_throw _)
  | invalid paths => exact (quiet_addLines _).bind (fun _ => Effect.follows_throw _)
  | text bytes => exact Effect.follows_ofExcept bytes

theorem quiet_emitXml : (emitXml env).Follows Quiet := by
  refine (quiet_addLines _).bind (fun _ => ?_)
  refine (Effect.follows_ofExcept _).bind (fun _ => ?_)
  refine (Effect.follows_ofExcept _).bind (fun _ => ?_)
  refine (Effect.follows_ofExcept _).bind (fun _ => ?_)
  apply Effect.follows_ite
  · exact (quiet_addLine _).bind (fun _ => Effect.follows_pure _)
  · exact (quiet_addLine _).bind (fun _ => Effect.follows_throw _)

theorem quiet_nvmlFile (nvml : Nvml) : (nvmlFile nvml).Follows Quiet := by
  cases nvml with
  | notRequired => exact Effect.follows_pure _
  | missing reason => exact Effect.follows_pure _
  | facts text => exact (Effect.follows_ofExcept _).bind (fun _ => Effect.follows_pure _)

theorem quiet_linksFile (links : Option Links) : (linksFile links).Follows Quiet := by
  cases links with
  | none => exact Effect.follows_pure _
  | some links => exact (quiet_readLinks links).bind (fun _ => Effect.follows_pure _)

theorem quiet_stagedFiles (nvml : Nvml) : (stagedFiles env nvml).Follows Quiet := by
  refine quiet_emitXml.bind (fun _ => ?_)
  refine (quiet_nvmlFile nvml).bind (fun _ => ?_)
  refine (Effect.follows_ofExcept _).bind (fun _ => ?_)
  refine (quiet_linksFile _).bind (fun _ => ?_)
  exact (Effect.follows_ofExcept _).bind (fun _ => Effect.follows_pure _)

theorem quiet_runBeforeValidate : (runBeforeValidate env).Follows Quiet := by
  refine Effect.follows_get.bind (fun _ => ?_)
  refine (Effect.follows_ofExcept _).bind (fun _ => ?_)
  exact Effect.follows_modify (fun _ => ⟨rfl, rfl, rfl, rfl, rfl, rfl⟩)

theorem quiet_validateFile (file : String × Bytes) : (validateFile env file).Follows Quiet := by
  apply Effect.follows_ite
  · refine Effect.follows_get.bind (fun _ => ?_)
    refine (Effect.follows_ofExcept _).bind (fun result => ?_)
    cases result with
    | none => exact (quiet_addLine _).bind (fun _ => Effect.follows_pure _)
    | some paths => exact (quiet_addLines _).bind (fun _ => Effect.follows_pure _)
  · exact Effect.follows_pure _

theorem quiet_validateFiles (files : List (String × Bytes)) :
    (validateFiles env files).Follows Quiet := by
  induction files with
  | nil => exact Effect.follows_pure _
  | cons file rest ih =>
      refine (quiet_validateFile file).bind (fun _ => ?_)
      exact ih.bind (fun _ => Effect.follows_pure _)

theorem quiet_validateStaged (env : Env) (files : List (String × Bytes)) :
    (validateStaged env files).Follows Quiet := by
  refine (quiet_validateFiles files).bind (fun _ => ?_)
  exact (quiet_addLine _).bind (fun _ => Effect.follows_pure _)

theorem quiet_stageDiagnostics : (stageDiagnostics env).Follows Quiet :=
  Effect.follows_get.bind (fun _ => quiet_stage _)

theorem quiet_replayed : (replayed sha256Hex env).Follows Quiet := by
  refine Effect.follows_get.bind (fun _ => ?_)
  refine (Effect.follows_ofExcept _).bind (fun result => ?_)
  cases result with
  | rejected code file => exact (quiet_addLine _).bind (fun _ => Effect.follows_throw _)
  | identity text => exact (quiet_addLine _).bind (fun _ => Effect.follows_pure _)

end Quiet

/-!
## The staged files
-/

/-- What a manifest says is missing. -/
def Nvml.missingFiles : Nvml -> List MissingFile
  | .missing reason => [⟨"nvml.json", reason.name⟩]
  | _ => []

/-- The flags of a failure are those of an earlier state. -/
structure Unjudged (s b : Run) : Prop where
  leakOrSchema : b.leakOrSchema = s.leakOrSchema
  otherFailure : b.otherFailure = s.otherFailure

instance : IsPreorder Run Unjudged where
  refl _ := ⟨rfl, rfl⟩
  trans _ _ _ h h' :=
    ⟨h'.leakOrSchema.trans h.leakOrSchema, h'.otherFailure.trans h.otherFailure⟩

theorem Quiet.unjudged {s b : Run} (h : Quiet s b) : Unjudged s b :=
  ⟨h.leakOrSchema, h.otherFailure⟩

/-- A later state after the sources were read: it is marked with what they miss. -/
structure Marked (nvml : Nvml) (s b : Run) : Prop where
  out : b.out = s.out
  written : b.written = s.written
  unjudged : Unjudged s b
  manifest : b.manifest =
    { s.manifest with missing := s.manifest.missing ++ nvml.missingFiles }
  isPartial : b.isPartial = (!nvml.missingFiles.isEmpty || s.isPartial)

theorem Marked.quiet {nvml : Nvml} {s b c : Run} (h : Marked nvml s b) (hc : Quiet b c) :
    Marked nvml s c :=
  ⟨hc.out.trans h.out, hc.written.trans h.written, trans_of Unjudged h.unjudged hc.unjudged,
    hc.manifest.trans h.manifest, hc.isPartial.trans h.isPartial⟩

theorem holds_noteMissing (nvml : Nvml) (s : Run) {R : Exn -> Run -> Prop} :
    (noteMissing nvml).Holds (Quiet s) (Unjudged s) (fun _ => Marked nvml s) R := by
  have hquiet : nvml.missingFiles = [] -> forall b, Quiet s b -> Marked nvml s b := by
    intro hnil b hb
    refine ⟨hb.out, hb.written, hb.unjudged, ?_, ?_⟩
    · rw [hnil, List.append_nil]
      exact hb.manifest
    · rw [hnil]
      exact hb.isPartial
  cases nvml with
  | missing reason =>
      apply Effect.holds_modify
      · intro b hb
        exact ⟨hb.leakOrSchema, hb.otherFailure⟩
      · intro b hb
        refine ⟨hb.out, hb.written, ⟨hb.leakOrSchema, hb.otherFailure⟩, ?_, rfl⟩
        rw [← hb.manifest]
        rfl
  | notRequired => exact Effect.holds_pure (hquiet rfl)
  | facts text => exact Effect.holds_pure (hquiet rfl)

theorem Marked.of_follows {A : Type} {m : M A} (h : m.Follows Quiet) (nvml : Nvml) (s : Run) :
    m.Holds (Marked nvml s) (Unjudged s) (fun _ => Marked nvml s) (fun _ => Unjudged s) := by
  apply Effect.Holds.of_pre
  intro b hb
  refine (h.holds b).weaken ?_ ?_ ?_ ?_
  · rintro c rfl
    exact refl_of Quiet c
  · intro c hc
    exact (hb.quiet hc).unjudged
  · intro _ c hc
    exact hb.quiet hc
  · intro _ c hc
    exact (hb.quiet hc).unjudged

theorem holds_quiet {A : Type} {m : M A} (h : m.Follows Quiet) (s : Run) :
    m.Holds (Quiet s) (Unjudged s) (fun _ => Quiet s) (fun _ => Unjudged s) :=
  (h.holds s).weaken (fun _ hb => hb) (fun _ hb => hb.unjudged) (fun _ _ hb => hb)
    (fun _ _ hb => hb.unjudged)

/-- The staging of the files marks the run with what is missing. -/
theorem holds_stageFiles (env : Env) (s : Run) :
    (stageFiles env).Holds (Quiet s) (Unjudged s)
      (fun staged b => AreData staged.2 ∧ exists nvml, env.sources = .ok nvml ∧ Marked nvml s b)
      (fun _ => Unjudged s) := by
  refine (holds_quiet quiet_noteNodeIndex s).bind (fun _ => ?_)
  refine (holds_quiet (quiet_addLines _) s).bind (fun _ => ?_)
  refine Effect.holds_ofExcept_bind (fun _ _ _ hb => hb.unjudged) (fun nvml hsources => ?_)
  refine (holds_noteMissing nvml s).bind (fun _ => ?_)
  refine (Marked.of_follows (quiet_addLines _) nvml s).bind (fun _ => ?_)
  refine (Marked.of_follows (Effect.follows_ofExcept _) nvml s).bind (fun raw => ?_)
  refine (Marked.of_follows (quiet_addLine _) nvml s).bind (fun _ => ?_)
  refine (Marked.of_follows (quiet_stagedFiles nvml) nvml s).bind_of_yields
    (yields_stagedFiles nvml) (fun files hfiles => ?_)
  refine (Marked.of_follows (Effect.Follows.each quiet_stage files) nvml s).bind (fun _ => ?_)
  refine (Marked.of_follows quiet_runBeforeValidate nvml s).bind (fun _ => ?_)
  exact Effect.holds_pure (fun b hb => ⟨hfiles, nvml, hsources, hb⟩)

/-!
## The published files
-/

/-- A file of the output is listed with the hash of its bytes. -/
def Listed (sha256Hex : Bytes -> String) (b : Run) (name : String) : Prop :=
  exists bytes, b.out.entry name = some ⟨.file bytes, false⟩ ∧
    b.manifest.files.find? name = some (fileHash sha256Hex bytes)

/-- A run that has published some files since a state s: it lists exactly what it wrote. -/
structure Listing (base : Out) (sha256Hex : Bytes -> String) (s : Run) (done : List String)
    (b : Run) : Prop where
  own : Out.Changes base (fun _ => True) b.out
  written : b.written = done
  listed : forall name, name ∈ done -> Listed sha256Hex b name
  unlisted : forall name, name ∉ done -> b.manifest.files.find? name = none
  unjudged : Unjudged s b
  isPartial : b.isPartial = s.isPartial
  manifest : { b.manifest with files := s.manifest.files } = s.manifest

section Publishing

variable {base : Out} {sha256Hex : Bytes -> String} {env : Env} {s : Run}

/-- The states between the opening of a published file and its listing. -/
structure Publishing (base : Out) (sha256Hex : Bytes -> String) (s : Run) (done : List String)
    (name : String) (b : Run) : Prop where
  own : Out.Changes base (fun _ => True) b.out
  written : b.written = done ++ [name]
  listed : forall other, other ∈ done -> other ≠ name -> Listed sha256Hex b other
  unlisted : forall other, other ∉ done -> b.manifest.files.find? other = none
  unjudged : Unjudged s b
  isPartial : b.isPartial = s.isPartial
  manifest : { b.manifest with files := s.manifest.files } = s.manifest

theorem Publishing.write {done : List String} {name : String} {b : Run}
    (h : Publishing base sha256Hex s done name b) (hbase : Ready base)
    (hname : name ∈ kDataFiles) (hopens : b.out.opens name false = true) (part : Bytes) :
    Publishing base sha256Hex s done name { b with out := b.out.write name part } := by
  refine ⟨h.own.write trivial (hbase.clear_data hname) hopens part, h.written, ?_, h.unlisted,
    ⟨h.unjudged.leakOrSchema, h.unjudged.otherFailure⟩, h.isPartial, h.manifest⟩
  intro other hother hne
  rcases h.listed other hother hne with ⟨bytes, hentry, hhash⟩
  refine ⟨bytes, ?_, hhash⟩
  change (b.out.write name part).entry other = _
  rw [Out.entry_write part h.own.directory, if_neg hne]
  exact hentry

theorem Publishing.list {done : List String} {name : String} {b : Run} {bytes : Bytes}
    (h : Publishing base sha256Hex s done name b)
    (hentry : b.out.entry name = some ⟨.file bytes, false⟩) :
    Listing base sha256Hex s (done ++ [name]) { b with manifest := { b.manifest with
      files := b.manifest.files.insert name (fileHash sha256Hex bytes) } } := by
  refine ⟨h.own, h.written, ?_, ?_, ⟨h.unjudged.leakOrSchema, h.unjudged.otherFailure⟩,
    h.isPartial, h.manifest⟩
  · intro other hother
    by_cases heq : other = name
    · rw [heq]
      exact ⟨bytes, hentry, OrdMap.find?_insert_self _ _ _⟩
    · rcases List.mem_append.mp hother with hother | hother
      · rcases h.listed other hother heq with ⟨bytes', hentry', hhash⟩
        refine ⟨bytes', hentry', ?_⟩
        change (b.manifest.files.insert name _).find? other = _
        rw [OrdMap.find?_insert_of_ne _ _ heq]
        exact hhash
      · exact absurd (List.mem_singleton.mp hother) heq
  · intro other hother
    have hne : other ≠ name := by
      rintro rfl
      exact hother (List.mem_append_right _ List.mem_cons_self)
    change (b.manifest.files.insert name _).find? other = none
    rw [OrdMap.find?_insert_of_ne _ _ hne]
    exact h.unlisted other (fun hmem => hother (List.mem_append_left _ hmem))

theorem holds_publish (hbase : Ready base) {done : List String} {file : String × Bytes}
    (hfile : file.1 ∈ kDataFiles) :
    (publish sha256Hex env file).Holds (Listing base sha256Hex s done) (Unjudged s)
      (fun _ => Listing base sha256Hex s (done ++ [file.1])) (fun _ => Unjudged s) := by
  have htrack : (trackForCleanup (.out file.1)).Holds (Listing base sha256Hex s done)
      (Unjudged s) (fun _ => Listing base sha256Hex s done) (fun _ => Unjudged s) := by
    have hkeep : forall b, Listing base sha256Hex s done b -> Listing base sha256Hex s done
        (if b.tracked.length ≥ kMaxTracked then b
          else { b with tracked := b.tracked ++ [Path.out file.1] }) := by
      intro b hb
      split_ifs
      · exact hb
      · exact ⟨hb.own, hb.written, hb.listed, hb.unlisted,
          ⟨hb.unjudged.leakOrSchema, hb.unjudged.otherFailure⟩, hb.isPartial, hb.manifest⟩
    exact Effect.holds_modify (fun b hb => (hkeep b hb).unjudged) hkeep
  refine htrack.bind (fun _ => ?_)
  refine Effect.Holds.bind (Q := fun _ => Publishing base sha256Hex s done file.1)
    (Effect.holds_modify ?_ ?_) (fun _ => ?_)
  · intro b hb
    exact ⟨hb.unjudged.leakOrSchema, hb.unjudged.otherFailure⟩
  · intro b hb
    refine ⟨hb.own, ?_, fun other hother _ => hb.listed other hother, hb.unlisted,
      ⟨hb.unjudged.leakOrSchema, hb.unjudged.otherFailure⟩, hb.isPartial, hb.manifest⟩
    change b.written ++ [file.1] = _
    rw [hb.written]
  refine Effect.Holds.bind (Q := fun _ b => Publishing base sha256Hex s done file.1 b ∧
    b.out.entry file.1 = some ⟨.file file.2, false⟩) (holds_writeSynced _ ?_ ?_ ?_ ?_) (fun _ => ?_)
  · intro b hb hopens part
    exact (hb.write hbase hfile hopens part).unjudged
  · intro b hb hopens
    exact ⟨hb.write hbase hfile hopens _,
      hb.own.entry_write_self (hbase.clear_data hfile) hopens _⟩
  · intro b hb hopens part
    exact (hb.write hbase hfile hopens part).unjudged
  · intro b hb
    exact hb.unjudged
  · apply Effect.holds_modify
    · rintro b ⟨hb, hentry⟩
      exact (hb.list hentry).unjudged
    · rintro b ⟨hb, hentry⟩
      exact hb.list hentry

/-- A run that has published its files and has an id. -/
structure Published (base : Out) (sha256Hex : Bytes -> String) (s : Run) (names : List String)
    (b : Run) : Prop where
  own : Out.Changes base (fun _ => True) b.out
  written : b.written = names
  listed : forall name, name ∈ names -> Listed sha256Hex b name
  unlisted : forall name, name ∉ names -> b.manifest.files.find? name = none
  unjudged : Unjudged s b
  isPartial : b.isPartial = s.isPartial
  topologyId : exists text, b.manifest.topologyId = some ("topo1:sha256:" ++ sha256Hex text)
  manifest : { b.manifest with
    files := s.manifest.files, topologyId := s.manifest.topologyId } = s.manifest

/-- The id is the one of a replay. -/
theorem yields_replayed : (replayed sha256Hex env).Yields fun id => exists staged text,
    env.replay staged = .ok (.identity text) ∧ id = "topo1:sha256:" ++ sha256Hex text := by
  refine Effect.Yields.bind (p := fun _ => True) (fun _ _ _ => trivial) (fun s _ => ?_)
  refine Effect.Yields.bind (p := fun result => env.replay (s.scratch.getD OrdMap.empty) =
    .ok result) (fun _ _ h => h) (fun result hresult => ?_)
  cases result with
  | rejected code file =>
      refine Effect.Yields.bind (p := fun _ => True) (fun _ _ _ => trivial) (fun _ _ => ?_)
      intro b id hid
      cases hid
  | identity text =>
      refine Effect.Yields.bind (p := fun _ => True) (fun _ _ _ => trivial) (fun _ _ => ?_)
      exact Effect.yields_pure ⟨_, text, hresult, rfl⟩

theorem holds_publishAll (env : Env) (hbase : Ready base) {files : List (String × Bytes)}
    (hfiles : AreData files) (hs : Listing base sha256Hex s [] s) :
    (publishAll sha256Hex env files).Holds (· = s) (Unjudged s)
      (fun _ => Published base sha256Hex s (files.map Prod.fst)) (fun _ => Unjudged s) := by
  have hquiet : (replayed sha256Hex env).Holds (· = s) (Unjudged s)
      (fun _ => Listing base sha256Hex s []) (fun _ => Unjudged s) := by
    refine (quiet_replayed.holds s).weaken ?_ (fun _ hb => hb.unjudged) ?_
      (fun _ _ hb => hb.unjudged)
    · rintro b rfl
      exact refl_of Quiet b
    · intro _ b hb
      refine ⟨?_, hb.written.trans hs.written, ?_, ?_, hb.unjudged, hb.isPartial, ?_⟩
      · rw [hb.out]
        exact hs.own
      · intro name hname
        cases hname
      · intro name hname
        rw [hb.manifest]
        exact hs.unlisted name hname
      · rw [hb.manifest]
  refine hquiet.bind_of_yields yields_replayed (fun id hid => ?_)
  have hloop : (Effect.each (publish sha256Hex env) files).Holds
      (Listing base sha256Hex s []) (Unjudged s)
      (fun _ => Listing base sha256Hex s (files.map Prod.fst)) (fun _ => Unjudged s) := by
    refine Effect.holds_each (J := fun done => Listing base sha256Hex s (done.map Prod.fst))
      files ?_ []
    intro done file hfile
    rw [List.map_append]
    exact holds_publish hbase (hfiles.mem hfile)
  refine hloop.bind (fun _ => ?_)
  rcases hid with ⟨staged, text, _, rfl⟩
  apply Effect.holds_modify
  · intro b hb
    exact ⟨hb.unjudged.leakOrSchema, hb.unjudged.otherFailure⟩
  · intro b hb
    refine ⟨hb.own, hb.written, hb.listed, hb.unlisted,
      ⟨hb.unjudged.leakOrSchema, hb.unjudged.otherFailure⟩, hb.isPartial, ⟨text, rfl⟩, ?_⟩
    rw [← hb.manifest]

end Publishing

end Capture
end Ostia

import Ostia.Capture.Contract

/-!
# The words of a record

The leak check searches the diagnostics as they are when it runs.  The lines that follow it
and the manifest are words of the tool itself, and nothing searches them.
-/

namespace Ostia
namespace Capture

open Foundation

/-!
## Texts without a match
-/

/-- No entry matches a line of a text. -/
def Silent (raw : RawSet) (text : Bytes) : Prop :=
  forall e, e ∈ raw.entries -> forall line, line ∈ textLines text -> ¬ e.Matches line

section Silent

variable {raw : RawSet} {a b : Bytes}

/-- An entry is too long to match an empty line. -/
theorem RawEntry.Normal.not_matches_nil {e : RawEntry} (h : e.Normal) : ¬ e.Matches [] := by
  have hlong := h.long
  have hne : e.needle ≠ [] := by
    intro hnil
    rw [hnil] at hlong
    cases hlong
  unfold RawEntry.Matches
  cases e.mode with
  | hex =>
      intro hinfix
      exact hne (List.infix_nil.mp hinfix)
  | token =>
      dsimp only
      split_ifs
      · rintro ⟨i, run, hrun, hlower⟩
        rcases hrun.bounded with ⟨pre, post, hsplit, _⟩
        have hnil := (List.append_eq_nil_iff.mp (List.append_eq_nil_iff.mp hsplit.symm).1).2
        exact hrun.nonempty hnil
      · rintro ⟨i, hocc, _⟩
        have hinfix := infix_iff_occursAt.mpr ⟨i, hocc⟩
        exact hne (List.infix_nil.mp hinfix)

theorem Silent.snoc (h : Silent raw a) : Silent raw (a ++ ['\n'.toUInt8]) := by
  intro e he line hline
  rcases mem_textLines_snoc hline with hline | rfl
  · exact h e he line hline
  · exact (raw.normal e he).not_matches_nil

theorem Silent.cut (ha : Silent raw (a ++ ['\n'.toUInt8])) (hb : Silent raw b) :
    Silent raw (a ++ '\n'.toUInt8 :: b) := by
  intro e he line hline
  rw [textLines_cut] at hline
  rcases List.mem_append.mp hline with hline | hline
  · exact ha e he line hline
  · exact hb e he line hline

theorem render_snoc {lines : List Bytes} (h : lines ≠ []) (line : Bytes) :
    render (lines ++ [line]) = render lines ++ '\n'.toUInt8 :: line := by
  unfold render
  induction lines with
  | nil => exact absurd rfl h
  | cons first rest ih =>
      by_cases hnil : rest = []
      · rw [hnil, List.cons_append, List.nil_append, List.intercalate_cons_cons,
          List.intercalate_singleton, List.intercalate_singleton, List.append_assoc]
        rfl
      · have hmore : rest ++ [line] ≠ [] := fun h => hnil (List.append_eq_nil_iff.mp h).1
        rw [List.cons_append, List.intercalate_cons_of_ne_nil hmore,
          List.intercalate_cons_of_ne_nil hnil, ih hnil]
        simp only [List.append_assoc]

/-- Lines without a match can follow a text without one. -/
theorem silent_render {lines : List Bytes} (h : Silent raw (render lines ++ ['\n'.toUInt8]))
    (late : List Bytes) (hlate : forall line, line ∈ late -> Silent raw line) :
    Silent raw (render (lines ++ late) ++ ['\n'.toUInt8]) := by
  induction late generalizing lines with
  | nil =>
      rw [List.append_nil]
      exact h
  | cons line rest ih =>
      have hline := hlate line List.mem_cons_self
      have hnext : Silent raw (render (lines ++ [line]) ++ ['\n'.toUInt8]) := by
        by_cases hnil : lines = []
        · rw [hnil, List.nil_append]
          unfold render
          rw [List.intercalate_singleton]
          exact hline.snoc
        · rw [render_snoc hnil, List.append_assoc]
          exact h.cut hline.snoc
      have hrest := ih hnext (fun other hother => hlate other (List.mem_cons_of_mem _ hother))
      rw [List.append_assoc] at hrest
      exact hrest

end Silent

/-!
## The words of the tool
-/

/-- The texts of a failure that is noted after the leak check. -/
def failureTexts : List String :=
  ["capture: no scratch directory could be created under TMPDIR",
    "capture: an output file could not be written",
    "capture: unexpected exception",
    "capture: unexpected non-standard exception",
    "capture: diagnostics.txt or the manifest could not be written"]

/-- A line that a run adds after the search of its files found something, or nothing. -/
inductive OwnLine (env : Env) (searched : Nat) (found : List Finding) : Bytes -> Prop
  | summary : OwnLine env searched found
      (ascii "leak search: " ++ countOf searched "file(s), " ++
        countOf found.length "finding(s) in " ++ fixedMs (env.elapsed 3) ++ ascii " ms")
  | finding {f : Finding} (h : f ∈ found) : OwnLine env searched found (ascii "leak: " ++ f.text)
  | rejected {staged : Scratched} {code file : Bytes}
      (h : env.replay staged = .ok (.rejected code file)) : OwnLine env searched found
      (ascii "replay: " ++ code ++ ascii " in " ++ if file = [] then ascii "(model)" else file)
  | replayed : OwnLine env searched found
      (ascii "replay: topo1 in " ++ fixedMs (env.elapsed 4) ++ ascii " ms")
  | failure {text : String} (h : text ∈ failureTexts) : OwnLine env searched found (ascii text)
  | exit {code : Nat} (h : code ≤ 3) : OwnLine env searched found
      (ascii ("capture: exit " ++ toString code))

/-- A manifest of a run that staged some files and began its leak check with a manifest. -/
structure Reports (sha256Hex : Bytes -> String) (env : Env) (files : List (String × Bytes))
    (start m : Manifest) : Prop where
  sanitized : m.sanitized = true
  missing : m.missing = start.missing
  files : forall name hash, m.files.find? name = some hash ->
    exists bytes, (name, bytes) ∈ files ∧ hash = fileHash sha256Hex bytes
  topologyId : forall id, m.topologyId = some id -> exists staged text,
    env.replay staged = .ok (.identity text) ∧ id = "topo1:sha256:" ++ sha256Hex text

/-- A state of a run after its leak check began: only words of the tool were added. -/
structure Speaking (sha256Hex : Bytes -> String) (env : Env) (files : List (String × Bytes))
    (found : List Finding) (c b : Run) : Prop where
  lines : exists late, b.diag = c.diag ++ late ∧
    forall line, line ∈ late -> OwnLine env (searchedNames files).length found line
  manifest : Reports sha256Hex env files c.manifest b.manifest

section Words

variable {sha256Hex : Bytes -> String} {env : Env} {files : List (String × Bytes)}
  {found : List Finding} {start m : Manifest} {c b : Run}

theorem Reports.failedForm (h : Reports sha256Hex env files start m) :
    Reports sha256Hex env files start m.failedForm := by
  refine ⟨h.sanitized, h.missing, ?_, ?_⟩
  · intro name hash hhash
    cases hhash
  · intro id hid
    cases hid

theorem Reports.addWriteFailed (h : Reports sha256Hex env files start m) :
    Reports sha256Hex env files start m.addWriteFailed :=
  ⟨h.sanitized, h.missing, h.files, h.topologyId⟩

theorem Speaking.congr {b' : Run} (h : Speaking sha256Hex env files found c b)
    (hdiag : b'.diag = b.diag) (hmanifest : b'.manifest = b.manifest) :
    Speaking sha256Hex env files found c b' := by
  refine ⟨?_, ?_⟩
  · rw [hdiag]
    exact h.lines
  · rw [hmanifest]
    exact h.manifest

theorem Speaking.add (h : Speaking sha256Hex env files found c b) {line : Bytes}
    (hline : OwnLine env (searchedNames files).length found line) :
    Speaking sha256Hex env files found c { b with diag := b.diag ++ [line] } := by
  rcases h.lines with ⟨late, hlate, hown⟩
  refine ⟨⟨late ++ [line], ?_, ?_⟩, h.manifest⟩
  · change b.diag ++ [line] = _
    rw [hlate, List.append_assoc]
  · intro other hother
    rcases List.mem_append.mp hother with hother | hother
    · exact hown other hother
    · rw [List.mem_singleton.mp hother]
      exact hline

/-- A step that touches neither the diagnostics nor the manifest. -/
theorem speaking_modify {f : Run -> Run} (hdiag : forall s, (f s).diag = s.diag)
    (hmanifest : forall s, (f s).manifest = s.manifest) :
    (Effect.modify f : M PUnit).Keeps (Speaking sha256Hex env files found c) :=
  Effect.keeps_modify (fun s hs => hs.congr (hdiag s) (hmanifest s))

theorem speaking_addLine {line : Bytes}
    (hline : OwnLine env (searchedNames files).length found line) :
    (addLine line).Keeps (Speaking sha256Hex env files found c) :=
  Effect.keeps_modify (fun _ hs => hs.add hline)

theorem speaking_fail (code : ErrorCode) (leakOrSchema : Bool) :
    (fail code leakOrSchema).Keeps (Speaking sha256Hex env files found c) :=
  Effect.keeps_modify (fun _ hs => ⟨hs.lines, hs.manifest.sanitized, hs.manifest.missing,
    hs.manifest.files, hs.manifest.topologyId⟩)

theorem speaking_failIf (test : Bool) (code : ErrorCode) (leakOrSchema : Bool) :
    (failIf test code leakOrSchema).Keeps (Speaking sha256Hex env files found c) := by
  unfold failIf
  split_ifs
  · exact speaking_fail code leakOrSchema
  · exact Effect.keeps_pure _

theorem speaking_failWith (e : Exn) :
    (failWith e).Keeps (Speaking sha256Hex env files found c) := by
  have htext : forall (text : String) (code : ErrorCode), text ∈ failureTexts ->
      (addLine (ascii text) >>= fun _ => fail code false).Keeps
        (Speaking sha256Hex env files found c) :=
    fun text code htext => (speaking_addLine (.failure htext)).bind (fun _ => speaking_fail _ _)
  cases e with
  | abort code => exact speaking_fail code false
  | noScratch => exact htext _ _ (by decide)
  | system => exact htext _ _ (by decide)
  | standard => exact htext _ _ (by decide)
  | nonstandard => exact htext _ _ (by decide)

theorem speaking_noteFindings :
    (noteFindings env (searchedNames files).length found).Keeps
      (Speaking sha256Hex env files found c) := by
  refine (speaking_addLine .summary).bind (fun _ => ?_)
  refine Effect.Keeps.bind (Effect.Keeps.each _ ?_) (fun _ => ?_)
  · intro line hline
    rcases List.mem_map.mp hline with ⟨f, hf, rfl⟩
    exact speaking_addLine (.finding hf)
  refine Effect.Keeps.bind (Effect.keeps_modify ?_) (fun _ => ?_)
  · intro s hs
    exact ⟨hs.lines, hs.manifest.sanitized, hs.manifest.missing, hs.manifest.files,
      hs.manifest.topologyId⟩
  refine (speaking_failIf _ _ _).bind (fun _ => ?_)
  exact (speaking_failIf _ _ _).bind (fun _ => Effect.keeps_pure _)

theorem speaking_trackForCleanup (path : Path) :
    (trackForCleanup path).Keeps (Speaking sha256Hex env files found c) := by
  apply speaking_modify
  · intro s
    split_ifs
    · rfl
    · rfl
  · intro s
    split_ifs
    · rfl
    · rfl

theorem speaking_writeSynced (name : String) (bytes : Bytes) (exclusive : Bool)
    (fault : WriteFault) :
    (writeSynced name bytes exclusive fault).Keeps (Speaking sha256Hex env files found c) := by
  have hset : forall content, (setFile name content).Keeps
      (Speaking sha256Hex env files found c) :=
    fun content => speaking_modify (fun _ => rfl) (fun _ => rfl)
  apply Effect.keeps_get_bind
  intro s _
  split_ifs
  · refine (hset _).bind (fun _ => ?_)
    refine Effect.Keeps.bind (Effect.Keeps.each _ (fun n _ => hset _)) (fun _ => ?_)
    cases fault.stops with
    | some n => exact (hset _).bind (fun _ => Effect.keeps_throw _)
    | none => exact hset _
  · exact Effect.keeps_throw _

theorem speaking_publish {file : String × Bytes} (hfile : file ∈ files) :
    (publish sha256Hex env file).Keeps (Speaking sha256Hex env files found c) := by
  refine (speaking_trackForCleanup _).bind (fun _ => ?_)
  refine Effect.Keeps.bind (speaking_modify (fun _ => rfl) (fun _ => rfl)) (fun _ => ?_)
  refine (speaking_writeSynced _ _ _ _).bind (fun _ => ?_)
  apply Effect.keeps_modify
  intro s hs
  refine ⟨hs.lines, hs.manifest.sanitized, hs.manifest.missing, ?_, hs.manifest.topologyId⟩
  intro name hash hhash
  change (s.manifest.files.insert file.1 (fileHash sha256Hex file.2)).find? name = _ at hhash
  rw [OrdMap.find?_insert] at hhash
  split_ifs at hhash with hname
  · cases hhash
    exact ⟨file.2, by rw [hname]; exact hfile, rfl⟩
  · exact hs.manifest.files name hash hhash

theorem speaking_replayed :
    (replayed sha256Hex env).Keeps (Speaking sha256Hex env files found c) := by
  apply Effect.keeps_get_bind
  intro s _
  apply Effect.keeps_ofExcept_bind
  intro result hresult
  cases result with
  | rejected code file =>
      exact (speaking_addLine (.rejected hresult)).bind (fun _ => Effect.keeps_throw _)
  | identity text => exact (speaking_addLine .replayed).bind (fun _ => Effect.keeps_pure _)

theorem speaking_publishAll :
    (publishAll sha256Hex env files).Keeps (Speaking sha256Hex env files found c) := by
  refine speaking_replayed.bind_of_yields yields_replayed (fun id hid => ?_)
  refine Effect.Keeps.bind (Effect.Keeps.each _ (fun file hfile => speaking_publish hfile))
    (fun _ => ?_)
  apply Effect.keeps_modify
  intro s hs
  refine ⟨hs.lines, hs.manifest.sanitized, hs.manifest.missing, hs.manifest.files, ?_⟩
  intro id' hid'
  cases hid'
  exact hid

end Words

/-!
## A run whose leak check ran
-/

/-- The leak check of a run: its raw set, the staged files and the state when it searches. -/
def Checks (env : Env) (s : Run) (raw : RawSet) (files : List (String × Bytes)) (c : Run) :
    Prop :=
  exists s0 s1 s2 s3, Effect.run (prepareOut env) s = (.ok true, s0) ∧
    Effect.run (makeScratch env) s0 = (.ok ⟨⟩, s1) ∧
    Effect.run (stageFiles env) s1 = (.ok (raw, files), s2) ∧
    Effect.run (validateStaged env files) s2 = (.ok true, s3) ∧
    Effect.run (stageDiagnostics env) (noteSanitized s3).state = (.ok ⟨⟩, c)

/-- What the search of a run's leak check finds. -/
def foundAt (env : Env) (raw : RawSet) (files : List (String × Bytes)) (c : Run) : List Finding :=
  stagedFindings env raw c.scratch (searchedNames files)

section Checks

variable {printer : Printer} {sha256Hex : Bytes -> String} {env : Env} {raw : RawSet}
  {files : List (String × Bytes)} {s b c : Run}

/-- Before the leak check a manifest lists nothing and has no id. -/
theorem Valid.speaking {base : Out} {found : List Finding} (hs : Valid base env s)
    (hc : Quiet (noteSanitized s).state c) : Speaking sha256Hex env files found c c := by
  have hmanifest : c.manifest = { s.manifest with sanitized := true } := hc.manifest
  rcases hs.sources with ⟨nvml, _, hstart, _⟩
  refine ⟨⟨[], (List.append_nil _).symm, ?_⟩, ?_, rfl, ?_, ?_⟩
  · intro line hline
    cases hline
  · rw [hmanifest]
  · intro name hash hhash
    rw [hmanifest, hstart] at hhash
    cases hhash
  · intro id hid
    rw [hmanifest, hstart] at hid
    cases hid

theorem speaking_checkAndPublish {found : List Finding}
    (hdiagnostics : Effect.run (stageDiagnostics env) (noteSanitized s).state = (.ok ⟨⟩, c))
    (hfound : found = foundAt env raw files c) (hc : Speaking sha256Hex env files found c c) :
    Speaking sha256Hex env files found c (checkAndPublish sha256Hex env raw files s).state := by
  have hcheck : Speaking sha256Hex env files found c
      (leakCheck env raw files (noteSanitized s).state).state := by
    have hrun : Effect.run (leakCheck env raw files) (noteSanitized s).state = _ :=
      run_leakCheck_of_ok (congrArg Prod.fst hdiagnostics)
    rw [show (stageDiagnostics env (noteSanitized s).state).state = c from
      congrArg Prod.snd hdiagnostics] at hrun
    change Speaking sha256Hex env files found c
      (Effect.run (leakCheck env raw files) (noteSanitized s).state).2
    rw [hrun, ← show found = stagedFindings env raw c.scratch (searchedNames files) from hfound]
    exact speaking_noteFindings.state hc
  have hrest : Speaking sha256Hex env files found c
      ((leakCheck env raw files >>= fun stopped =>
        if stopped then pure ⟨⟩ else publishAll sha256Hex env files)
        (noteSanitized s).state).state := by
    refine Effect.Keeps.state_bind hcheck (fun stopped => ?_)
    cases stopped with
    | true => exact Effect.keeps_pure _
    | false => exact speaking_publishAll
  exact hrest

/-- After its leak check a run says only words of the tool. -/
theorem Checks.speaking (sha256Hex : Bytes -> String) (h : Checks env s raw files c)
    (hs : Fresh (prepareOut env s).state) :
    Speaking sha256Hex env files (foundAt env raw files c) c
      (stagedState sha256Hex env (prepareOut env s).state) := by
  rcases h with ⟨s0, s1, s2, s3, htaken, hmade, hstaged, hvalidated, hdiagnostics⟩
  have hs0 : (prepareOut env s).state = s0 := congrArg Prod.snd htaken
  rw [hs0] at hs ⊢
  have hquiet : Quiet s0 s1 := by
    rw [← show (makeScratch env s0).state = s1 from congrArg Prod.snd hmade]
    exact (quiet_makeScratch s0).2
  have hvalid : Valid s1.out env s3 := by
    have hend := ((holds_stageFiles env s1) s1 (refl_of Quiet s1)).2
    rw [show (stageFiles env s1).result = _ from congrArg Prod.fst hstaged,
      show (stageFiles env s1).state = s2 from congrArg Prod.snd hstaged] at hend
    rcases hend with ⟨_, nvml, hsources, hmarked⟩
    refine hmarked.valid (hs.quiet hquiet) hsources ?_
    rw [← show (validateStaged env files s2).state = s3 from congrArg Prod.snd hvalidated]
    exact (quiet_validateStaged env files s2).2
  have hc : Quiet (noteSanitized s3).state c := by
    rw [← show (stageDiagnostics env (noteSanitized s3).state).state = c from
      congrArg Prod.snd hdiagnostics]
    exact (quiet_stageDiagnostics (noteSanitized s3).state).2
  have hpublished : Speaking sha256Hex env files (foundAt env raw files c) c
      (checkAndPublish sha256Hex env raw files s3).state :=
    speaking_checkAndPublish hdiagnostics rfl (hvalid.speaking hc)
  have hchecked : Speaking sha256Hex env files (foundAt env raw files c) c
      (Effect.run (stageAndCheck sha256Hex env) s1).2 := by
    unfold stageAndCheck
    rw [Effect.run_bind_of_run _ hstaged, Effect.run_bind_of_run _ hvalidated]
    exact hpublished
  refine Effect.Keeps.state_handle ?_ (fun e => speaking_failWith e)
  change Speaking sha256Hex env files (foundAt env raw files c) c
    (Effect.run (withScratch env (stageAndCheck sha256Hex env)) s0).2
  unfold withScratch
  rw [Effect.run_bind_of_run _ hmade]
  exact hchecked.congr rfl rfl

theorem exitFor_le (leakOrSchema otherFailure isPartial : Bool) :
    exitFor leakOrSchema otherFailure isPartial ≤ 3 := by
  revert leakOrSchema otherFailure isPartial
  decide

/-- What the raw set must not match in the words of a run after its leak check. -/
structure Unspoken (printer : Printer) (sha256Hex : Bytes -> String) (env : Env) (raw : RawSet)
    (files : List (String × Bytes)) (c : Run) : Prop where
  staged : Silent raw (render c.diag ++ ascii "\n")
  lines : forall line, OwnLine env (searchedNames files).length (foundAt env raw files c) line ->
    Silent raw line
  manifest : forall m, Reports sha256Hex env files c.manifest m ->
    Silent raw (manifestText printer m)

/-- The record of a run that said only words of the tool. -/
theorem Unspoken.recorded {code : Nat} {d : Run}
    (h : Unspoken printer sha256Hex env raw files c)
    (hd : Speaking sha256Hex env files (foundAt env raw files c) c d) (hcode : code ≤ 3)
    (hrecorded : Recorded printer d code b) {text : Bytes} :
    (b.out.file? "diagnostics.txt" = some text -> Silent raw text) ∧
      (b.out.file? "manifest.json" = some text -> Silent raw text) := by
  rw [file?_eq_of_entry hrecorded.diagnostics, file?_eq_of_entry hrecorded.shows]
  refine ⟨?_, ?_⟩
  · intro htext
    rcases hd.lines with ⟨late, hlate, hown⟩
    rw [← Option.some.inj htext, hrecorded.lines, hlate, List.append_assoc]
    refine silent_render h.staged _ ?_
    intro line hline
    rcases List.mem_append.mp hline with hline | hline
    · exact h.lines line (hown line hline)
    · rw [List.mem_singleton.mp hline]
      exact h.lines _ (.exit hcode)
  · intro htext
    rw [← Option.some.inj htext]
    exact h.manifest _ hd.manifest

/-- The form of the manifest for an exit code adds no other words. -/
theorem Formed.speaking {base : Out} {mark : List Path} {n code : Nat} {found : List Finding}
    {formed : Run} (h : Formed base mark n code s formed)
    (hs : Speaking sha256Hex env files found c s) :
    Speaking sha256Hex env files found c formed := by
  refine ⟨?_, ?_⟩
  · rw [h.same.diag]
    exact hs.lines
  · by_cases hcode : code = 1 ∨ code = 3
    · rcases (h.failed hcode).2 with ⟨m, hm⟩
      have hform : formed.manifest = s.manifest.failedForm := by
        rw [← h.same.manifest, hm]
        rfl
      rw [hform]
      exact hs.manifest.failedForm
    · rw [h.succeeded hcode]
      exact ⟨hs.manifest.sanitized, hs.manifest.missing, hs.manifest.files,
        hs.manifest.topologyId⟩

/-- The record that a run leaves, written first or again. -/
theorem Unspoken.finished {base : Out} {mark : List Path} {n : Nat} {outcome : CaptureOutcome}
    (h : Unspoken printer sha256Hex env raw files c) (hbase : Ready base)
    (hs : Speaking sha256Hex env files (foundAt env raw files c) c s)
    (hfinished : Finished base mark n printer
      (exitFor s.leakOrSchema s.otherFailure s.isPartial) s outcome b) {text : Bytes} :
    (b.out.file? "diagnostics.txt" = some text -> Silent raw text) ∧
      (b.out.file? "manifest.json" = some text -> Silent raw text) := by
  cases hfinished with
  | first formed d hreleased _ =>
      rw [hreleased.released]
      exact h.recorded (hreleased.form.speaking hs) (exitFor_le _ _ _) hreleased.recorded
  | again formed hform hagain _ =>
      rcases hagain.record with ⟨d, hmanifest, hdiag, hrecorded⟩ | hnone
      · have hformed := hform.speaking hs
        refine h.recorded ?_ (hagain.exit ▸ exitFor_le _ _ _) hrecorded
        have hexit := hformed.add (.exit (exitFor_le s.leakOrSchema s.otherFailure s.isPartial))
        have hfailed := hexit.add (.failure
          (show "capture: diagnostics.txt or the manifest could not be written" ∈ failureTexts by
            decide))
        refine ⟨?_, ?_⟩
        · rw [hdiag]
          exact hfailed.lines
        · rw [hmanifest]
          exact hformed.manifest.addWriteFailed.failedForm
      · have habsent : forall name, name ∈ kRecordFiles -> b.out.file? name = none :=
          fun name hname => file?_of_clear (hbase.clear_record hname) (hnone name hname)
        refine ⟨?_, ?_⟩
        · intro htext
          rw [habsent _ (by decide)] at htext
          cases htext
        · intro htext
          rw [habsent _ (by decide)] at htext
          cases htext

end Checks

/--
A record holds no identifier of the machine when none is a word of the diagnostics that were
searched, of a line that the tool adds later or of a manifest.
-/
theorem record_silent (printer : Printer) (sha256Hex : Bytes -> String) (env : Env)
    (diag : List Bytes) {out : Out} (hout : Removable out) {outcome : CaptureOutcome}
    (h : (capture printer sha256Hex env (Run.start out [] diag)).result = .ok outcome)
    {raw : RawSet} {files : List (String × Bytes)} {c : Run}
    (hchecks : Checks env (Run.start out [] diag) raw files c)
    (hwords : Unspoken printer sha256Hex env raw files c) (text : Bytes) :
    ((capture printer sha256Hex env (Run.start out [] diag)).state.out.file?
        "diagnostics.txt" = some text -> Silent raw text) ∧
      ((capture printer sha256Hex env (Run.start out [] diag)).state.out.file?
        "manifest.json" = some text -> Silent raw text) := by
  have hs : Removable (Run.start out [] diag).out := hout
  have htaken : (prepareOut env (Run.start out [] diag)).result = .ok true := by
    rcases hchecks with ⟨s0, s1, s2, s3, htaken, _⟩
    exact congrArg Prod.fst htaken
  cases captured printer sha256Hex env hs with
  | refused hrefuses _ _ =>
      have hend := (holds_prepareOut env (I := fun _ => True) hs (fun _ _ => trivial)
        (fun _ _ _ _ => trivial) (fun _ _ => trivial) _ rfl).2
      rw [htaken] at hend
      rcases hend with ⟨_, hnot, _⟩ | ⟨hfalse, _⟩
      · exact absurd hrefuses hnot
      · cases hfalse
  | thrown e hresult _ =>
      have herror := h.symm.trans hresult
      cases herror
  | went _ b hb hprepared hresult hend =>
      have hfresh := hprepared.fresh (start_fresh out [] diag)
      have hgo := (holds_go printer sha256Hex env hfresh hprepared.ready
        (hprepared.room rfl) b rfl).2
      rw [hresult.symm.trans h] at hgo
      rw [hend]
      rw [hb] at hfresh
      have hspeaking := hchecks.speaking sha256Hex hfresh
      rw [← hb] at hspeaking
      exact hwords.finished hprepared.ready hspeaking hgo

/-!
## A machine whose identifiers are no words, and one whose host name is one
-/

/-- The state in which the leak check of a run searches, when its steps return. -/
def checkState (env : Env) (s : Run) (files : List (String × Bytes)) : Run :=
  let s1 := (makeScratch env (prepareOut env s).state).state
  let s3 := (validateStaged env files (stageFiles env s1).state).state
  (stageDiagnostics env (noteSanitized s3).state).state

/-- The steps before the leak check return, and stage some files. -/
def reachesCheck (env : Env) (s : Run) (files : List (String × Bytes)) : Bool :=
  let s0 := (prepareOut env s).state
  let s1 := (makeScratch env s0).state
  let s2 := (stageFiles env s1).state
  let s3 := (validateStaged env files s2).state
  (prepareOut env s).result.toOption = some true && (makeScratch env s0).result.toOption.isSome &&
    (stageFiles env s1).result.toOption.map Prod.snd = some files &&
    (validateStaged env files s2).result.toOption = some true &&
    (stageDiagnostics env (noteSanitized s3).state).result.toOption.isSome

section Machines

variable {env : Env} {raw : RawSet} {s : Run} {files : List (String × Bytes)}

/-- The raw set of a run is the one that was collected. -/
theorem yields_raw : (stageFiles env).Yields fun staged => env.raw = .ok staged.1 := by
  have hany : forall {A : Type} (m : M A), m.Yields fun _ => True := fun _ _ _ _ => trivial
  refine (hany _).bind (fun _ _ => ?_)
  refine (hany _).bind (fun _ _ => ?_)
  refine (hany _).bind (fun nvml _ => ?_)
  refine (hany _).bind (fun _ _ => ?_)
  refine (hany _).bind (fun _ _ => ?_)
  refine Effect.Yields.bind (p := fun collected => env.raw = .ok collected) (fun _ _ h => h)
    (fun collected hraw => ?_)
  refine (hany _).bind (fun _ _ => ?_)
  refine (hany _).bind (fun staged _ => ?_)
  refine (hany _).bind (fun _ _ => ?_)
  refine (hany _).bind (fun _ _ => ?_)
  exact Effect.yields_pure hraw

theorem eq_ok_of_isSome {r : Except Exn PUnit} (h : r.toOption.isSome = true) : r = .ok ⟨⟩ := by
  cases r with
  | ok u => rfl
  | error e => cases h

theorem checks_of_reachesCheck (hraw : env.raw = .ok raw)
    (h : reachesCheck env s files = true) : Checks env s raw files (checkState env s files) := by
  unfold reachesCheck at h
  simp only [Bool.and_eq_true, decide_eq_true_eq] at h
  rcases h with ⟨⟨⟨⟨htaken, hmade⟩, hstaged⟩, hvalid⟩, hdiagnostics⟩
  refine ⟨_, _, _, _, Prod.ext (Fallible.eq_ok_of_toOption htaken) rfl,
    Prod.ext (eq_ok_of_isSome hmade) rfl, Prod.ext ?_ rfl,
    Prod.ext (Fallible.eq_ok_of_toOption hvalid) rfl, Prod.ext (eq_ok_of_isSome hdiagnostics) rfl⟩
  rcases Option.map_eq_some_iff.mp hstaged with ⟨staged, hresult, rfl⟩
  replace hresult := Fallible.eq_ok_of_toOption hresult
  have hsame := Except.ok.inj ((yields_raw _ _ hresult).symm.trans hraw)
  rw [← hsame]
  exact hresult

theorem mem_of_mem_textLines {text line : Bytes} {c : UInt8} (hline : line ∈ textLines text)
    (hc : c ∈ line) : c ∈ text := by
  have hreturn : forall part : Bytes, c ∈ withoutReturn part -> c ∈ part := by
    intro part hpart
    unfold withoutReturn at hpart
    split_ifs at hpart
    · exact List.mem_of_mem_dropLast hpart
    · exact hpart
  induction text using lines_induction with
  | last part hpart =>
      by_cases hnil : part = []
      · rw [hnil, textLines_nil] at hline
        cases hline
      · rw [textLines_last hpart hnil] at hline
        rw [List.mem_singleton.mp hline] at hc
        exact hreturn part hc
  | cons part rest hpart ih =>
      rw [textLines_append hpart] at hline
      rcases List.mem_cons.mp hline with rfl | hline
      · exact List.mem_append_left _ (hreturn part hc)
      · exact List.mem_append_right _ (List.mem_cons_of_mem _ (ih hline))

/-- A line that an entry with tokens matches holds every byte of it, in one of its cases. -/
theorem byte_of_matches {e : RawEntry} (hmode : e.mode = .token) {line : Bytes}
    (h : e.Matches line) {b : UInt8} (hb : b ∈ e.needle) :
    exists c, c ∈ line ∧ Bytes.lower c = Bytes.lower b := by
  unfold RawEntry.Matches at h
  rw [hmode] at h
  dsimp only at h
  split_ifs at h
  · rcases h with ⟨i, run, hrun, hlower⟩
    have hmem : Bytes.lower b ∈ Bytes.lowered run := by
      rw [hlower]
      exact List.mem_map_of_mem hb
    rcases List.mem_map.mp hmem with ⟨c, hc, heq⟩
    rcases hrun.bounded with ⟨pre, post, hsplit, _⟩
    refine ⟨c, ?_, heq⟩
    rw [hsplit]
    exact List.mem_append_left _ (List.mem_append_right _ hc)
  · rcases h with ⟨i, hocc, _⟩
    rcases List.mem_map.mp ((infix_iff_occursAt.mpr ⟨i, hocc⟩).subset hb) with ⟨c, hc, heq⟩
    refine ⟨c, hc, ?_⟩
    rw [← heq, Bytes.lower_lower]

/-- A text without some letter is matched by no entry with it. -/
theorem silent_of_byte {text : Bytes} {b : UInt8}
    (hraw : forall e, e ∈ raw.entries -> e.mode = .token ∧ b ∈ e.needle)
    (htext : forall c, c ∈ text -> Bytes.lower c ≠ Bytes.lower b) : Silent raw text := by
  intro e he line hline hmatch
  rcases byte_of_matches (hraw e he).1 hmatch (hraw e he).2 with ⟨c, hc, heq⟩
  exact htext c (mem_of_mem_textLines hline hc) heq

end Machines

/-- A raw set that holds a host name and a serial number. -/
def unitSet : RawSet where
  entries := [⟨.hostname, .token, ascii "quad-node-07"⟩, ⟨.serial, .token, ascii "7719q2x4"⟩]
  seen := [(.token, ascii "quad-node-07"), (.token, ascii "7719q2x4")]
  skippedShort := 0
  normal := by
    intro e he
    rcases List.mem_cons.mp he with rfl | he
    · exact ⟨by decide, by decide, fun h => by cases h⟩
    · rw [List.mem_singleton.mp he]
      exact ⟨by decide, by decide, fun h => by cases h⟩
  seen_eq := rfl
  nodup := by decide

def unitMachine : Env := { plainMachine with raw := .ok unitSet }

/-- The files that the plain machine stages. -/
def plainFiles : List (String × Bytes) := [("hwloc.xml", []), ("nics.json", []), ("meta.json", [])]

/-- A character that is not the letter of both identifiers. -/
def NotQ (c : Char) : Prop := c ≠ 'q' ∧ c ≠ 'Q'

instance (c : Char) : Decidable (NotQ c) := inferInstanceAs (Decidable (_ ∧ _))

theorem marks_pretty : Topology.Layout.Marks Topology.Pretty.layout NotQ := by
  constructor
  · decide
  · intro c hc
    constructor
    · rintro rfl
      revert hc
      decide
    · rintro rfl
      revert hc
      decide
  · intro c hc
    constructor
    · rintro rfl
      revert hc
      decide
    · rintro rfl
      revert hc
      decide
  · decide

/-- A string that the printer writes without that letter. -/
abbrev Word (s : String) : Prop := Topology.Layout.Escapes Topology.Pretty.layout NotQ s

theorem words_fields (entries : List (String × String))
    (h : forall e, e ∈ entries -> Word e.1 ∧ Word e.2) :
    Topology.Layout.AllFields Word (entries.map fun e => (e.1, .str e.2)) := by
  induction entries with
  | nil => trivial
  | cons e rest ih =>
      rw [List.forall_mem_cons] at h
      exact ⟨h.1.1, h.1.2, ih h.2⟩

theorem words_errors (errors : List ErrorCode) :
    Topology.Layout.AllItems Word (errors.map fun e =>
      .obj [("code", .str e.name), ("message", .str e.message)]) := by
  have hkeys : Word "code" ∧ Word "message" := by decide +kernel
  have hnames : forall e : ErrorCode, Word e.name ∧ Word e.message := by
    intro e
    cases e
    all_goals decide +kernel
  induction errors with
  | nil => trivial
  | cons e rest ih =>
      exact ⟨⟨hkeys.1, (hnames e).1, hkeys.2, (hnames e).2, trivial⟩, ih⟩

/-- The strings of a manifest of a run on that machine are words of the tool. -/
theorem words_manifest {start m : Manifest} (hstart : start.missing = [])
    (h : Reports (fun _ => "00") unitMachine plainFiles start m) :
    Topology.Layout.AllStrings Word (manifestJson "0.1.0" m) := by
  have hkeys : forall key, key ∈ ["errors", "files", "leak_check", "missing", "sanitized", "schema",
      "status", "tool_version", "topology_id", "0.1.0"] -> Word key := by
    decide +kernel
  have hfiles : forall e, e ∈ m.files.entries -> Word e.1 ∧ Word e.2 := by
    have hnames : forall f, f ∈ plainFiles -> Word f.1 := by decide +kernel
    intro e he
    rcases h.files e.1 e.2 (OrdMap.mem_entries.mp he) with ⟨bytes, hmem, hhash⟩
    rw [hhash]
    refine ⟨hnames _ hmem, ?_⟩
    show Word ("sha256:" ++ "00")
    decide +kernel
  have hstatus : Word m.status.name := by
    cases m.status
    all_goals decide +kernel
  have hcheck : Word m.leakCheck.name := by
    cases m.leakCheck
    all_goals decide +kernel
  unfold manifestJson
  rw [h.missing, hstart]
  refine ⟨hkeys _ (by decide), words_errors _, hkeys _ (by decide), words_fields _ hfiles,
    hkeys _ (by decide), hcheck, hkeys _ (by decide), trivial, hkeys _ (by decide), trivial,
    hkeys _ (by decide), trivial, hkeys _ (by decide), hstatus, hkeys _ (by decide),
    hkeys _ (by decide), hkeys _ (by decide), ?_, trivial⟩
  cases hid : m.topologyId with
  | none => trivial
  | some id =>
      rcases h.topologyId id hid with ⟨_, _, _, rfl⟩
      show Word _
      decide +kernel

theorem eq_of_lower_q (b : UInt8) : Bytes.lower b = Bytes.lower 'q'.toUInt8 ->
    b = 'q'.toUInt8 ∨ b = 'Q'.toUInt8 := by
  revert b
  apply Bytes.forall_byte
  decide +kernel

/-- No word of the tool holds that letter. -/
theorem unspoken_unit : Unspoken prettyPrinter (fun _ => "00") unitMachine unitSet plainFiles
    (checkState unitMachine (Run.start .absent [] []) plainFiles) := by
  have hraw : forall e, e ∈ unitSet.entries -> e.mode = .token ∧ 'q'.toUInt8 ∈ e.needle := by
    decide
  have hfound : foundAt unitMachine unitSet plainFiles
      (checkState unitMachine (Run.start .absent [] []) plainFiles) = [] := by
    rw [← List.isEmpty_iff]
    decide +kernel
  have hfailures : forall text, text ∈ failureTexts -> forall c, c ∈ ascii text ->
      Bytes.lower c ≠ Bytes.lower 'q'.toUInt8 := by
    decide +kernel
  have hexits : forall code, code < 4 -> forall c, c ∈ ascii ("capture: exit " ++ toString code) ->
      Bytes.lower c ≠ Bytes.lower 'q'.toUInt8 := by
    decide +kernel
  refine ⟨silent_of_byte hraw (by decide +kernel), ?_, ?_⟩
  · intro line hline
    rw [hfound] at hline
    refine silent_of_byte hraw ?_
    cases hline with
    | summary => decide +kernel
    | finding h => cases h
    | rejected h => cases h
    | replayed => decide +kernel
    | failure h => exact hfailures _ h
    | exit h => exact hexits _ (Nat.lt_succ_of_le h)
  · intro m hm
    apply silent_of_byte hraw
    intro b hb heq
    have hletter := eq_of_lower_q b heq
    have hlow : b.toNat < 0x80 := by
      rcases hletter with rfl | rfl
      · decide
      · decide
    unfold manifestText at hb
    rw [show prettyPrinter.dump = Topology.Pretty.dump from rfl, Topology.Pretty.dump,
      utf8_ofList] at hb
    rcases List.mem_flatMap.mp hb with ⟨c, hc, hbyte⟩
    have hcode := utf8EncodeChar_low hbyte hlow
    have hnot : NotQ c := by
      rcases List.mem_append.mp hc with hc | hc
      · exact marks_pretty.text 0 _ (words_manifest (by decide +kernel) hm) c hc
      · rw [List.mem_singleton.mp hc]
        decide
    rcases hletter with rfl | rfl
    · exact hnot.1 (Char.ext_iff.mpr (UInt32.toNat_inj.mp hcode))
    · exact hnot.2 (Char.ext_iff.mpr (UInt32.toNat_inj.mp hcode))

/-- A run whose identifiers are no words of the tool. -/
theorem record_silent_unit :
    Checks unitMachine (Run.start .absent [] []) unitSet plainFiles
        (checkState unitMachine (Run.start .absent [] []) plainFiles) ∧
      forall text,
        ((capture prettyPrinter (fun _ => "00") unitMachine
          (Run.start .absent [] [])).state.out.file?
          "diagnostics.txt" = some text -> Silent unitSet text) ∧
        ((capture prettyPrinter (fun _ => "00") unitMachine
          (Run.start .absent [] [])).state.out.file?
          "manifest.json" = some text -> Silent unitSet text) := by
  have hchecks : Checks unitMachine (Run.start .absent [] []) unitSet plainFiles
      (checkState unitMachine (Run.start .absent [] []) plainFiles) :=
    checks_of_reachesCheck rfl (by decide +kernel)
  have hresult : (capture prettyPrinter (fun _ => "00") unitMachine
      (Run.start .absent [] [])).result.toOption.isSome = true := by
    decide +kernel
  rcases Option.isSome_iff_exists.mp hresult with ⟨outcome, houtcome⟩
  exact ⟨hchecks, fun text => record_silent prettyPrinter (fun _ => "00") unitMachine []
    removable_absent
    (Fallible.eq_ok_of_toOption houtcome) hchecks unspoken_unit text⟩

/-- A raw set that holds a host name that is a word of the diagnostics. -/
def wordSet : RawSet where
  entries := [⟨.hostname, .token, ascii "validate"⟩]
  seen := [(.token, ascii "validate")]
  skippedShort := 0
  normal := by
    intro e he
    rw [List.mem_singleton.mp he]
    exact ⟨by decide, by decide, fun h => by cases h⟩
  seen_eq := rfl
  nodup := by decide

def wordMachine : Env := { plainMachine with raw := .ok wordSet }

/-- The leak check finds the host name in the diagnostics, and they are left all the same. -/
theorem record_spoken :
    Checks wordMachine (Run.start .absent [] []) wordSet plainFiles
        (checkState wordMachine (Run.start .absent [] []) plainFiles) ∧
      (capture prettyPrinter (fun _ => "00") wordMachine (Run.start .absent [] [])).result =
        .ok ⟨3, none⟩ ∧
      exists text,
        (capture prettyPrinter (fun _ => "00") wordMachine
          (Run.start .absent [] [])).state.out.file?
          "diagnostics.txt" = some text ∧ ¬ Silent wordSet text := by
  refine ⟨checks_of_reachesCheck rfl (by decide +kernel),
    Fallible.eq_ok_of_toOption (by decide +kernel), ?_⟩
  have hfile : ((capture prettyPrinter (fun _ => "00") wordMachine
      (Run.start .absent [] [])).state.out.file? "diagnostics.txt").any (fun text =>
        (textLines text).contains (ascii "validate: 3 file(s) in 0.000 ms")) = true := by
    decide +kernel
  rcases Option.any_eq_true _ _ |>.mp hfile with ⟨text, htext, hline⟩
  refine ⟨text, htext, ?_⟩
  intro hsilent
  have hhits : (scan (buildIndex wordSet) (ascii "validate: 3 file(s) in 0.000 ms")
      Scratch.empty).1 ≠ [] := by
    decide +kernel
  rcases List.exists_mem_of_ne_nil _ hhits with ⟨hit, hhit⟩
  rcases scan_sound wordSet _ hhit with ⟨e, he, _, hmatch⟩
  exact hsilent e he _ (List.contains_iff_mem.mp hline) hmatch

end Capture
end Ostia

import Ostia.Capture.Finish
import Ostia.Capture.Staging

/-!
# The verdict of a run

Which step stopped a run, and the flags, the manifest and the exit code that follow from it.
-/

namespace Ostia
namespace Capture

open Foundation

/-- A run at the start of its scope. -/
structure Fresh (s : Run) : Prop where
  manifest : s.manifest = Manifest.start
  written : s.written = []
  leakOrSchema : s.leakOrSchema = false
  otherFailure : s.otherFailure = false
  isPartial : s.isPartial = false

/-- The step at which the staging of a run stops. -/
inductive Stop where
  | scratch
  | staging
  | validation
  | schema
  | diagnostics
  | findings (found : List Finding)
  | publishing
  | nothing

section Stop

variable (sha256Hex : Bytes -> String) (env : Env)

/-- The files are searched, and published when nothing is found. -/
def stopAtCheck (raw : RawSet) (files : List (String × Bytes)) (s : Run) : Stop :=
  let staged := stageDiagnostics env (noteSanitized s).state
  match staged.result with
  | .error _ => .diagnostics
  | .ok _ =>
      let found := stagedFindings env raw staged.state.scratch (searchedNames files)
      let noted := noteFindings env (searchedNames files).length found staged.state
      if found ≠ [] then .findings found
      else
        match (publishAll sha256Hex env files noted.state).result with
        | .error _ => .publishing
        | .ok _ => .nothing

def stopAtStaging (s : Run) : Stop :=
  let staged := stageFiles env s
  match staged.result with
  | .error _ => .staging
  | .ok (raw, files) =>
      let validated := validateStaged env files staged.state
      match validated.result with
      | .error _ => .validation
      | .ok false => .schema
      | .ok true => stopAtCheck sha256Hex env raw files validated.state

def stopOf (s : Run) : Stop :=
  let made := makeScratch env s
  match made.result with
  | .error _ => .scratch
  | .ok _ => stopAtStaging sha256Hex env made.state

end Stop

/-- A finding that is an identifier, not a file that could not be read. -/
def HasLeak (found : List Finding) : Prop := exists f, f ∈ found ∧ f.kind ≠ .unreadable

def HasUnreadable (found : List Finding) : Prop := exists f, f ∈ found ∧ f.kind = .unreadable

namespace Stop

/-- A staged file violated its schema. -/
def SchemaFailure (stop : Stop) : Prop := stop = .schema

/-- The search found an identifier in a staged file. -/
def LeakFailure (stop : Stop) : Prop := exists found, stop = .findings found ∧ HasLeak found

/-- Any other step failed, or a staged file could not be read. -/
def OtherFailure (stop : Stop) : Prop :=
  stop = .scratch ∨ stop = .staging ∨ stop = .validation ∨ stop = .diagnostics ∨
    stop = .publishing ∨ exists found, stop = .findings found ∧ HasUnreadable found

/-- The staging stopped by an exception. -/
def IsThrown : Stop -> Prop
  | schema => False
  | findings _ => False
  | nothing => False
  | _ => True

end Stop

/-- A run that published its files without a failure. -/
structure Success (base : Out) (sha256Hex : Bytes -> String) (env : Env) (b : Run) : Prop where
  leakOrSchema : b.leakOrSchema = false
  otherFailure : b.otherFailure = false
  sanitized : b.manifest.sanitized = true
  leakCheck : b.manifest.leakCheck = .passed
  topologyId : exists text, b.manifest.topologyId = some ("topo1:sha256:" ++ sha256Hex text)
  errors : b.manifest.errors = []
  always : forall name, name ∈ alwaysFiles -> name ∈ b.written
  listed : forall name, name ∈ b.written -> Listed sha256Hex b name
  unlisted : forall name, name ∉ b.written -> b.manifest.files.find? name = none
  sources : exists nvml, env.sources = .ok nvml ∧ b.manifest.missing = nvml.missingFiles ∧
    b.isPartial = !nvml.missingFiles.isEmpty

/-- The flags of a run after its staging, for the step at which it stopped. -/
structure Judged (base : Out) (sha256Hex : Bytes -> String) (env : Env) (stop : Stop) (b : Run) :
    Prop where
  leakOrSchema : b.leakOrSchema = true <-> stop.SchemaFailure ∨ stop.LeakFailure
  otherFailure : b.otherFailure = true <-> stop.OtherFailure
  success : stop = .nothing -> Success base sha256Hex env b
  clean : b.leakOrSchema = false -> b.otherFailure = false -> stop = .nothing

section Verdict

variable {base : Out} {sha256Hex : Bytes -> String} {env : Env}

/-- A later state with the flags that the findings raise. -/
structure Noted (found : List Finding) (s b : Run) : Prop where
  out : b.out = s.out
  written : b.written = s.written
  isPartial : b.isPartial = s.isPartial
  leakOrSchema : b.leakOrSchema =
    (s.leakOrSchema || found.any fun f => f.kind ≠ .unreadable)
  otherFailure : b.otherFailure = (s.otherFailure || found.any fun f => f.kind = .unreadable)
  manifest : found = [] -> b.manifest = { s.manifest with leakCheck := .passed }

theorem holds_addLine (line : Bytes) (s : Run) :
    (addLine line).Holds (Quiet s) (fun _ => True) (fun _ => Quiet s) (fun _ _ => False) :=
  Effect.holds_modify (fun _ _ => trivial) (fun _ hb =>
    ⟨hb.out, hb.written, hb.manifest, hb.leakOrSchema, hb.otherFailure, hb.isPartial⟩)

theorem holds_addLines (lines : List Bytes) (s : Run) :
    (addLines lines).Holds (Quiet s) (fun _ => True) (fun _ => Quiet s) (fun _ _ => False) :=
  Effect.holds_each (J := fun _ => Quiet s) lines (fun _ line _ => holds_addLine line s) []

theorem holds_failIf {J J' : Run -> Prop} {c : Bool} {code : ErrorCode} {leakOrSchema : Bool}
    (hfail : forall b, c = true -> J b -> J' { b with
      leakOrSchema := b.leakOrSchema || leakOrSchema
      otherFailure := b.otherFailure || !leakOrSchema
      manifest := { b.manifest with errors := b.manifest.errors ++ [code] } })
    (hpass : forall b, c = false -> J b -> J' b) :
    (failIf c code leakOrSchema).Holds J (fun _ => True) (fun _ => J') (fun _ _ => False) := by
  cases c with
  | true => exact Effect.holds_modify (fun _ _ => trivial) (fun b hb => hfail b rfl hb)
  | false => exact Effect.holds_pure (fun b hb => hpass b rfl hb)

theorem holds_noteFindings (searched : Nat) (found : List Finding) (s : Run) :
    (noteFindings env searched found).Holds (· = s) (fun _ => True)
      (fun stopped b => stopped = (found.any (fun f => f.kind ≠ .unreadable) ||
        found.any fun f => f.kind = .unreadable) ∧ Noted found s b) (fun _ _ => False) := by
  refine Effect.Holds.bind (Q := fun _ => Quiet s) ?_ (fun _ => ?_)
  · refine (holds_addLine _ s).weaken ?_ (fun _ hb => hb) (fun _ _ hb => hb) (fun _ _ hb => hb)
    rintro b rfl
    exact refl_of Quiet b
  refine (holds_addLines _ s).bind (fun _ => ?_)
  refine Effect.Holds.bind (Q := fun _ b => b.out = s.out ∧ b.written = s.written ∧
    b.isPartial = s.isPartial ∧ b.leakOrSchema = s.leakOrSchema ∧
    b.otherFailure = s.otherFailure ∧
    (found = [] -> b.manifest = { s.manifest with leakCheck := .passed }))
    (Effect.holds_modify (fun _ _ => trivial) ?_) (fun _ => ?_)
  · intro b hb
    refine ⟨hb.out, hb.written, hb.isPartial, hb.leakOrSchema, hb.otherFailure, ?_⟩
    rintro rfl
    change { b.manifest with leakCheck := .passed } = _
    rw [hb.manifest]
  refine Effect.Holds.bind (Q := fun _ b => b.out = s.out ∧ b.written = s.written ∧
    b.isPartial = s.isPartial ∧
    b.leakOrSchema = (s.leakOrSchema || found.any fun f => f.kind ≠ .unreadable) ∧
    b.otherFailure = s.otherFailure ∧
    (found = [] -> b.manifest = { s.manifest with leakCheck := .passed }))
    (holds_failIf ?_ ?_) (fun _ => ?_)
  · rintro b hany ⟨hout, hwritten, hincomplete, hleak, hother, _⟩
    refine ⟨hout, hwritten, hincomplete, ?_, ?_, ?_⟩
    · rw [hany, hleak]
    · rw [← hother]
      exact Bool.or_false _
    · rintro rfl
      cases hany
  · rintro b hany ⟨hout, hwritten, hincomplete, hleak, hother, hmanifest⟩
    refine ⟨hout, hwritten, hincomplete, ?_, hother, hmanifest⟩
    rw [hany, hleak, Bool.or_false]
  refine Effect.Holds.bind (Q := fun _ => Noted found s) (holds_failIf ?_ ?_) (fun _ => ?_)
  · rintro b hany ⟨hout, hwritten, hincomplete, hleak, hother, _⟩
    refine ⟨hout, hwritten, hincomplete, ?_, ?_, ?_⟩
    · rw [← hleak]
      exact Bool.or_false _
    · rw [hany, hother]
      rfl
    · rintro rfl
      cases hany
  · rintro b hany ⟨hout, hwritten, hincomplete, hleak, hother, hmanifest⟩
    refine ⟨hout, hwritten, hincomplete, hleak, ?_, hmanifest⟩
    rw [hany, hother, Bool.or_false]
  · exact Effect.holds_pure (fun b hb => ⟨rfl, hb⟩)

/-- How the staging of a run ends, for the step at which it stopped. -/
def Ends (base : Out) (sha256Hex : Bytes -> String) (env : Env) (stop : Stop)
    (o : Except Exn PUnit × Run) : Prop :=
  match o.1 with
  | .ok _ => Judged base sha256Hex env stop o.2
  | .error _ => stop.IsThrown ∧ o.2.leakOrSchema = false

/-- A run whose staged files are valid, and what its sources miss. -/
structure Valid (base : Out) (env : Env) (s : Run) : Prop where
  out : s.out = base
  written : s.written = []
  leakOrSchema : s.leakOrSchema = false
  otherFailure : s.otherFailure = false
  sources : exists nvml, env.sources = .ok nvml ∧
    s.manifest = { Manifest.start with missing := nvml.missingFiles } ∧
    s.isPartial = !nvml.missingFiles.isEmpty

theorem Valid.listing {s b : Run} (hbase : Ready base) (hs : Valid base env s)
    (hout : b.out = s.out) (hwritten : b.written = s.written)
    (hfiles : b.manifest.files = s.manifest.files) :
    Listing base sha256Hex b [] b := by
  refine ⟨?_, hwritten.trans hs.written, ?_, ?_, refl_of Unjudged b, rfl, rfl⟩
  · rw [hout, hs.out]
    exact Out.Changes.refl hbase.directory
  · intro name hname
    cases hname
  · intro name _
    rcases hs.sources with ⟨nvml, _, hmanifest, _⟩
    rw [hfiles, hmanifest]
    rfl

theorem Published.success {s b c : Run} {files : List (String × Bytes)}
    (h : Published base sha256Hex b (files.map Prod.fst) c) (hfiles : AreData files)
    (hs : Valid base env s) (hleak : b.leakOrSchema = false) (hother : b.otherFailure = false)
    (hincomplete : b.isPartial = s.isPartial)
    (hmanifest : b.manifest = { s.manifest with sanitized := true, leakCheck := .passed }) :
    Success base sha256Hex env c := by
  rcases hs.sources with ⟨nvml, hsources, hstart, hmissing⟩
  have hrest := h.manifest
  have hfield : forall {X : Type} (f : Manifest -> X),
      (forall (m : Manifest) (files : OrdMap String String) (id : Option String),
        f { m with files := files, topologyId := id } = f m) ->
      f c.manifest = f b.manifest := by
    intro X f hf
    exact (hf c.manifest _ _).symm.trans (congrArg f hrest)
  refine ⟨h.unjudged.leakOrSchema.trans hleak, h.unjudged.otherFailure.trans hother, ?_, ?_,
    h.topologyId, ?_, ?_, ?_, ?_, nvml, hsources, ?_, ?_⟩
  · rw [hfield Manifest.sanitized (fun _ _ _ => rfl), hmanifest]
  · rw [hfield Manifest.leakCheck (fun _ _ _ => rfl), hmanifest]
  · rw [hfield Manifest.errors (fun _ _ _ => rfl), hmanifest, hstart]
    rfl
  · intro name hname
    rw [h.written]
    exact hfiles.always name hname
  · rw [h.written]
    exact h.listed
  · rw [h.written]
    exact h.unlisted
  · rw [hfield Manifest.missing (fun _ _ _ => rfl), hmanifest, hstart]
  · rw [h.isPartial, hincomplete, hmissing]

theorem any_ne_unreadable {found : List Finding} :
    (found.any fun f => f.kind ≠ .unreadable) = true <-> HasLeak found := by
  unfold HasLeak
  simp

theorem any_unreadable {found : List Finding} :
    (found.any fun f => f.kind = .unreadable) = true <-> HasUnreadable found := by
  unfold HasUnreadable
  simp

theorem any_finding {found : List Finding} (h : found ≠ []) :
    (found.any (fun f => f.kind ≠ .unreadable) || found.any fun f => f.kind = .unreadable) =
      true := by
  cases found with
  | nil => exact absurd rfl h
  | cons f rest =>
      by_cases hkind : f.kind = .unreadable
      · simp [hkind]
      · simp [hkind]

/-- What was found stops the run, and says how. -/
theorem Noted.judged {found : List Finding} {s b : Run} (h : Noted found s b)
    (hleak : s.leakOrSchema = false) (hother : s.otherFailure = false) (hne : found ≠ []) :
    Judged base sha256Hex env (.findings found) b := by
  refine ⟨?_, ?_, ?_, ?_⟩
  · rw [h.leakOrSchema, hleak, Bool.false_or, any_ne_unreadable]
    unfold Stop.SchemaFailure Stop.LeakFailure
    simp
  · rw [h.otherFailure, hother, Bool.false_or, any_unreadable]
    unfold Stop.OtherFailure
    simp
  · intro hstop
    cases hstop
  · intro hleak' hother'
    have hany := any_finding hne
    rw [h.leakOrSchema, hleak, Bool.false_or] at hleak'
    rw [h.otherFailure, hother, Bool.false_or] at hother'
    rw [hleak', hother'] at hany
    cases hany

theorem run_leakCheck_of_error {raw : RawSet} {files : List (String × Bytes)} {s : Run}
    {e : Exn} (h : (stageDiagnostics env s).result = .error e) :
    Effect.run (leakCheck env raw files) s = (.error e, (stageDiagnostics env s).state) :=
  Effect.run_bind_of_error _ h

theorem run_leakCheck_of_ok {raw : RawSet} {files : List (String × Bytes)} {s : Run}
    {u : PUnit} (h : (stageDiagnostics env s).result = .ok u) :
    Effect.run (leakCheck env raw files) s =
      Effect.run (noteFindings env (searchedNames files).length
        (stagedFindings env raw (stageDiagnostics env s).state.scratch (searchedNames files)))
        (stageDiagnostics env s).state :=
  (Effect.run_bind_of_ok _ h).trans (Effect.run_bind_of_ok _ rfl)

/-- The leak check found nothing: the files are published. -/
theorem ends_publishAll (hbase : Ready base) {files : List (String × Bytes)}
    (hfiles : AreData files) {s b c : Run} (hs : Valid base env s)
    (hb : Quiet (noteSanitized s).state b) (hc : Noted [] b c) :
    Ends base sha256Hex env
      (match (publishAll sha256Hex env files c).result with
        | .error _ => .publishing
        | .ok _ => .nothing) (Effect.run (publishAll sha256Hex env files) c) := by
  have hleak : c.leakOrSchema = false := by
    rw [hc.leakOrSchema, hb.leakOrSchema]
    exact (Bool.or_false _).trans hs.leakOrSchema
  have hother : c.otherFailure = false := by
    rw [hc.otherFailure, hb.otherFailure]
    exact (Bool.or_false _).trans hs.otherFailure
  have hmanifest : c.manifest = { s.manifest with sanitized := true, leakCheck := .passed } := by
    rw [hc.manifest rfl, hb.manifest]
    rfl
  have hlisting : Listing base sha256Hex c [] c := by
    refine hs.listing hbase (hc.out.trans hb.out) (hc.written.trans hb.written) ?_
    rw [hmanifest]
  have hend := ((holds_publishAll env hbase hfiles hlisting) c rfl).2
  unfold Ends Effect.run
  cases hresult : (publishAll sha256Hex env files c).result with
  | error e =>
      rw [hresult] at hend
      exact ⟨trivial, hend.leakOrSchema.trans hleak⟩
  | ok u =>
      rw [hresult] at hend
      have hsuccess : Success base sha256Hex env (publishAll sha256Hex env files c).state :=
        hend.success hfiles hs hleak hother (hc.isPartial.trans hb.isPartial) hmanifest
      refine ⟨?_, ?_, fun _ => hsuccess, fun _ _ => rfl⟩
      · rw [hsuccess.leakOrSchema]
        unfold Stop.SchemaFailure Stop.LeakFailure
        simp
      · rw [hsuccess.otherFailure]
        unfold Stop.OtherFailure
        simp

theorem ends_checkAndPublish (hbase : Ready base) {raw : RawSet} {files : List (String × Bytes)}
    (hfiles : AreData files) {s : Run} (hs : Valid base env s) :
    Ends base sha256Hex env (stopAtCheck sha256Hex env raw files s)
      (Effect.run (checkAndPublish sha256Hex env raw files) s) := by
  have hsanitized : (noteSanitized s).result = .ok ⟨⟩ := rfl
  unfold checkAndPublish stopAtCheck
  rw [Effect.run_bind_of_ok _ hsanitized]
  dsimp only
  have hquiet :
      Quiet (noteSanitized s).state (stageDiagnostics env (noteSanitized s).state).state :=
    (quiet_stageDiagnostics (noteSanitized s).state).2
  generalize hd : stageDiagnostics env (noteSanitized s).state = staged at hquiet ⊢
  cases hresult : staged.result with
  | error e =>
      have hcheck : Effect.run (leakCheck env raw files) (noteSanitized s).state =
          (.error e, staged.state) := by
        rw [run_leakCheck_of_error (hd ▸ hresult), hd]
      rw [Effect.run_bind_of_error _ (congrArg Prod.fst hcheck)]
      exact ⟨trivial, (congrArg (fun o => o.2.leakOrSchema) hcheck).trans
        (hquiet.leakOrSchema.trans hs.leakOrSchema)⟩
  | ok u =>
      have hcheck : Effect.run (leakCheck env raw files) (noteSanitized s).state =
          Effect.run (noteFindings env (searchedNames files).length
            (stagedFindings env raw staged.state.scratch (searchedNames files))) staged.state := by
        rw [run_leakCheck_of_ok (hd ▸ hresult), hd]
      dsimp only
      generalize stagedFindings env raw staged.state.scratch (searchedNames files) = found
        at hcheck ⊢
      rcases (holds_noteFindings (searchedNames files).length found
        staged.state).returns rfl with ⟨stopped, hstopped, hvalue, hnoted⟩
      have hvalue' := (congrArg Prod.fst hcheck).trans hstopped
      have hstate : (leakCheck env raw files (noteSanitized s).state).state = _ :=
        congrArg Prod.snd hcheck
      rw [Effect.run_bind_of_ok _ hvalue', hstate]
      change Ends base sha256Hex env _ (Effect.run _ (noteFindings env (searchedNames files).length
        found staged.state).state)
      by_cases hfound : found = []
      · subst hfound
        rw [if_neg (fun h => h rfl)]
        have hpass : stopped = false := hvalue
        rw [hpass]
        exact ends_publishAll hbase hfiles hs hquiet hnoted
      · rw [if_pos hfound, hvalue, if_pos (any_finding hfound)]
        exact hnoted.judged (hquiet.leakOrSchema.trans hs.leakOrSchema)
          (hquiet.otherFailure.trans hs.otherFailure) hfound

theorem Marked.valid {nvml : Nvml} {s b c : Run} (h : Marked nvml s b) (hs : Fresh s)
    (hsources : env.sources = .ok nvml) (hc : Quiet b c) : Valid s.out env c := by
  refine ⟨hc.out.trans h.out, ?_, ?_, ?_, nvml, hsources, ?_, ?_⟩
  · rw [hc.written, h.written, hs.written]
  · rw [hc.leakOrSchema, h.unjudged.leakOrSchema, hs.leakOrSchema]
  · rw [hc.otherFailure, h.unjudged.otherFailure, hs.otherFailure]
  · rw [hc.manifest, h.manifest, hs.manifest]
    rfl
  · rw [hc.isPartial, h.isPartial, hs.isPartial, Bool.or_false]

theorem ends_stageAndCheck {s : Run} (hs : Fresh s) (hbase : Ready s.out) :
    Ends s.out sha256Hex env (stopAtStaging sha256Hex env s)
      (Effect.run (stageAndCheck sha256Hex env) s) := by
  unfold stageAndCheck stopAtStaging
  have hend := ((holds_stageFiles env s) s (refl_of Quiet s)).2
  dsimp only
  cases hstaged : (stageFiles env s).result with
  | error e =>
      rw [hstaged] at hend
      rw [Effect.run_bind_of_error _ hstaged]
      exact ⟨trivial, hend.leakOrSchema.trans hs.leakOrSchema⟩
  | ok staged =>
      rw [hstaged] at hend
      rcases hend with ⟨hfiles, nvml, hsources, hmarked⟩
      rw [Effect.run_bind_of_ok _ hstaged]
      dsimp only
      have hquiet : Quiet (stageFiles env s).state _ :=
        (quiet_validateStaged env staged.2 (stageFiles env s).state).2
      have hvalid := hmarked.valid hs hsources hquiet
      generalize hc : validateStaged env staged.2 (stageFiles env s).state = validated
        at hquiet hvalid ⊢
      cases hresult : validated.result with
      | error e =>
          rw [Effect.run_bind_of_error _ (hc ▸ hresult), hc]
          exact ⟨trivial, hvalid.leakOrSchema⟩
      | ok valid =>
          rw [Effect.run_bind_of_ok _ (hc ▸ hresult), hc]
          cases valid with
          | true => exact ends_checkAndPublish hbase hfiles hvalid
          | false =>
              refine ⟨?_, ?_, ?_, ?_⟩
              · change (validated.state.leakOrSchema || true) = true <-> _
                unfold Stop.SchemaFailure
                simp
              · change (validated.state.otherFailure || !true) = true <-> _
                rw [hvalid.otherFailure]
                unfold Stop.OtherFailure
                simp
              · intro hstop
                cases hstop
              · intro hleak
                change (validated.state.leakOrSchema || true) = false at hleak
                rw [Bool.or_true] at hleak
                cases hleak

/-- An exception is a failure that is neither of the schema nor a leak. -/
theorem judged_failWith {stop : Stop} (hstop : stop.IsThrown) {s : Run} (e : Exn)
    (hleak : s.leakOrSchema = false) :
    exists b, Effect.run (failWith e) s = (.ok ⟨⟩, b) ∧ Judged base sha256Hex env stop b := by
  have hjudged : forall b : Run, b.leakOrSchema = false -> b.otherFailure = true ->
      Judged base sha256Hex env stop b := by
    intro b hleak hother
    refine ⟨?_, ?_, ?_, ?_⟩
    · rw [hleak]
      unfold Stop.SchemaFailure Stop.LeakFailure
      cases stop with
      | schema => cases hstop
      | findings found => cases hstop
      | nothing => cases hstop
      | _ => simp
    · rw [hother]
      unfold Stop.OtherFailure
      cases stop with
      | schema => cases hstop
      | findings found => cases hstop
      | nothing => cases hstop
      | _ => simp
    · rintro rfl
      cases hstop
    · intro _ hnone
      rw [hother] at hnone
      cases hnone
  have hfail : forall (b : Run) (code : ErrorCode), b.leakOrSchema = false ->
      Judged base sha256Hex env stop (fail code false b).state := by
    intro b code hb
    apply hjudged
    · change (b.leakOrSchema || false) = false
      rw [hb]
      rfl
    · exact Bool.or_true _
  cases e with
  | abort code => exact ⟨_, rfl, hfail _ _ hleak⟩
  | noScratch => exact ⟨_, rfl, hfail _ _ hleak⟩
  | system => exact ⟨_, rfl, hfail _ _ hleak⟩
  | standard => exact ⟨_, rfl, hfail _ _ hleak⟩
  | nonstandard => exact ⟨_, rfl, hfail _ _ hleak⟩

theorem Fresh.quiet {s b : Run} (h : Fresh s) (hb : Quiet s b) : Fresh b :=
  ⟨hb.manifest.trans h.manifest, hb.written.trans h.written, hb.leakOrSchema.trans h.leakOrSchema,
    hb.otherFailure.trans h.otherFailure, hb.isPartial.trans h.isPartial⟩

theorem Judged.dropScratch {stop : Stop} {b : Run} (h : Judged base sha256Hex env stop b) :
    Judged base sha256Hex env stop { b with scratch := none } := by
  refine ⟨h.leakOrSchema, h.otherFailure, ?_, h.clean⟩
  intro hstop
  have hb := h.success hstop
  exact ⟨hb.leakOrSchema, hb.otherFailure, hb.sanitized, hb.leakCheck, hb.topologyId, hb.errors,
    hb.always, hb.listed, hb.unlisted, hb.sources⟩

theorem ends_withScratch {s : Run} (hs : Fresh s) (hbase : Ready s.out) :
    Ends s.out sha256Hex env (stopOf sha256Hex env s)
      (Effect.run (withScratch env (stageAndCheck sha256Hex env)) s) := by
  unfold withScratch stopOf
  have hquiet : Quiet s (makeScratch env s).state := (quiet_makeScratch s).2
  dsimp only
  cases hmade : (makeScratch env s).result with
  | error e =>
      rw [Effect.run_bind_of_error _ hmade]
      exact ⟨trivial, hquiet.leakOrSchema.trans hs.leakOrSchema⟩
  | ok u =>
      rw [Effect.run_bind_of_ok _ hmade]
      have hends : Ends (makeScratch env s).state.out sha256Hex env
          (stopAtStaging sha256Hex env (makeScratch env s).state)
          (Effect.run (stageAndCheck sha256Hex env) (makeScratch env s).state) :=
        ends_stageAndCheck (hs.quiet hquiet) (hquiet.out.symm ▸ hbase)
      rw [hquiet.out] at hends
      generalize (makeScratch env s).state = s0 at hends ⊢
      unfold Ends Effect.run Effect.ensure at *
      dsimp only at hends ⊢
      cases hresult : (stageAndCheck sha256Hex env s0).result with
      | error e =>
          rw [hresult] at hends
          exact hends
      | ok u =>
          rw [hresult] at hends
          exact hends.dropScratch

/-- The staging of a run ends with the flags of the step at which it stopped. -/
theorem judged_staging (sha256Hex : Bytes -> String) (env : Env) {s : Run} (hs : Fresh s)
    (hbase : Ready s.out) :
    exists b, Effect.run (Effect.handle (withScratch env (stageAndCheck sha256Hex env)) failWith)
      s = (.ok ⟨⟩, b) ∧ Judged s.out sha256Hex env (stopOf sha256Hex env s) b := by
  have hends : Ends s.out sha256Hex env (stopOf sha256Hex env s)
      (Effect.run (withScratch env (stageAndCheck sha256Hex env)) s) := ends_withScratch hs hbase
  unfold Ends Effect.run at hends
  dsimp only at hends
  cases hresult : (withScratch env (stageAndCheck sha256Hex env) s).result with
  | error e =>
      rw [hresult] at hends
      rw [Effect.run_handle_of_error _ hresult]
      exact judged_failWith hends.1 e hends.2
  | ok u =>
      rw [hresult] at hends
      rw [Effect.run_handle_of_ok _ hresult]
      exact ⟨_, rfl, hends⟩

end Verdict

end Capture
end Ostia

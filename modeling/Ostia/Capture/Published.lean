import Ostia.Capture.Accepted

/-!
# What a capture publishes

The staged files stay in the scratch directory as they were written, or as the hook left them,
until the last of them is published.  What a capture publishes are the bytes that it staged, after
it has validated, searched and replayed what the scratch directory holds.
-/

namespace Ostia
namespace Capture

open Foundation

/-- The scratch directory is as it was. -/
def Kept (s b : Run) : Prop := b.scratch = s.scratch

instance : IsPreorder Run Kept where
  refl _ := rfl
  trans _ _ _ h h' := h'.trans h

/-- The scratch directory that holds the staged files. -/
def filled (files : List (String × Bytes)) : Scratched :=
  files.foldl (fun d file => d.insert file.1 file.2) OrdMap.empty

theorem filled_snoc (files : List (String × Bytes)) (file : String × Bytes) :
    filled (files ++ [file]) = (filled files).insert file.1 file.2 := by
  unfold filled
  rw [List.foldl_append]
  rfl

theorem find?_filled_eq_none {files : List (String × Bytes)} {name : String} :
    (filled files).find? name = none <-> name ∉ files.map Prod.fst := by
  induction files using List.reverseRecOn with
  | nil => exact iff_of_true rfl List.not_mem_nil
  | append_singleton files file ih =>
      rw [filled_snoc, OrdMap.find?_insert, List.map_append, List.mem_append, not_or, <- ih,
        List.map_singleton, List.mem_singleton]
      split_ifs with heq
      · constructor
        · intro h
          cases h
        · intro h
          exact absurd heq h.2
      · exact ⟨fun h => ⟨h, heq⟩, fun h => h.1⟩

section Scratch

variable {sha256Hex : Bytes -> String} {env : Env}

theorem kept_addLine (line : Bytes) : (addLine line).Follows Kept :=
  Effect.follows_modify (fun _ => rfl)

theorem kept_addLines (lines : List Bytes) : (addLines lines).Follows Kept :=
  Effect.Follows.each kept_addLine lines

theorem kept_trackForCleanup (path : Path) : (trackForCleanup path).Follows Kept := by
  apply Effect.follows_modify
  intro s
  split_ifs
  · rfl
  · rfl

theorem kept_noteNodeIndex : (noteNodeIndex env).Follows Kept := by
  unfold noteNodeIndex
  split
  · exact kept_addLine _
  · exact Effect.follows_pure _

theorem kept_noteMissing (nvml : Nvml) : (noteMissing nvml).Follows Kept := by
  cases nvml with
  | missing reason => exact Effect.follows_modify (fun _ => rfl)
  | notRequired => exact Effect.follows_pure _
  | facts text => exact Effect.follows_pure _

theorem kept_emitXml : (emitXml env).Follows Kept := by
  refine (kept_addLines _).bind (fun _ => ?_)
  refine (Effect.follows_ofExcept _).bind (fun _ => ?_)
  refine (Effect.follows_ofExcept _).bind (fun _ => ?_)
  refine (Effect.follows_ofExcept _).bind (fun _ => ?_)
  apply Effect.follows_ite
  · exact (kept_addLine _).bind (fun _ => Effect.follows_pure _)
  · exact (kept_addLine _).bind (fun _ => Effect.follows_throw _)

theorem kept_nvmlFile (nvml : Nvml) : (nvmlFile nvml).Follows Kept := by
  cases nvml with
  | notRequired => exact Effect.follows_pure _
  | missing reason => exact Effect.follows_pure _
  | facts text => exact (Effect.follows_ofExcept _).bind (fun _ => Effect.follows_pure _)

theorem kept_readLinks (links : Links) : (readLinks links).Follows Kept := by
  cases links with
  | unreadable => exact (kept_addLine _).bind (fun _ => Effect.follows_throw _)
  | invalid paths => exact (kept_addLines _).bind (fun _ => Effect.follows_throw _)
  | text bytes => exact Effect.follows_ofExcept bytes

theorem kept_linksFile (links : Option Links) : (linksFile links).Follows Kept := by
  cases links with
  | none => exact Effect.follows_pure _
  | some links => exact (kept_readLinks links).bind (fun _ => Effect.follows_pure _)

theorem kept_stagedFiles (nvml : Nvml) : (stagedFiles env nvml).Follows Kept := by
  refine kept_emitXml.bind (fun _ => ?_)
  refine (kept_nvmlFile nvml).bind (fun _ => ?_)
  refine (Effect.follows_ofExcept _).bind (fun _ => ?_)
  refine (kept_linksFile _).bind (fun _ => ?_)
  exact (Effect.follows_ofExcept _).bind (fun _ => Effect.follows_pure _)

theorem kept_failIf (c : Bool) (code : ErrorCode) (leakOrSchema : Bool) :
    (failIf c code leakOrSchema).Follows Kept := by
  cases c with
  | true => exact Effect.follows_modify (fun _ => rfl)
  | false => exact Effect.follows_pure _

theorem kept_noteFindings (searched : Nat) (found : List Finding) :
    (noteFindings env searched found).Follows Kept := by
  refine (kept_addLine _).bind (fun _ => ?_)
  refine (kept_addLines _).bind (fun _ => ?_)
  refine Effect.Follows.bind (T := Kept) (Effect.follows_modify (fun _ => rfl)) (fun _ => ?_)
  refine (kept_failIf _ _ _).bind (fun _ => ?_)
  exact (kept_failIf _ _ _).bind (fun _ => Effect.follows_pure _)

/-- What the scratch directory holds. -/
def Holding (d : Scratched) (b : Run) : Prop := b.scratch = some d

theorem holds_kept {A : Type} {m : M A} (h : m.Follows Kept) (d : Scratched) :
    m.Holds (Holding d) (fun _ => True) (fun _ => Holding d) (fun _ _ => True) := by
  apply Effect.Holds.of_pre
  intro b hb
  refine (h.holds b).weaken ?_ (fun _ _ => trivial) ?_ (fun _ _ _ => trivial)
  · intro c hc
    rw [hc]
    exact refl_of Kept b
  · intro _ c hc
    exact hc.trans hb

theorem holds_stage (file : String × Bytes) (d : Scratched) :
    (stage env file).Holds (Holding d) (fun _ => True)
      (fun _ => Holding (d.insert file.1 file.2)) (fun _ _ => True) := by
  refine (holds_kept (kept_trackForCleanup _) d).bind (fun _ => ?_)
  refine Effect.holds_throwIf_bind (fun _ _ _ => trivial) (fun _ => ?_)
  refine Effect.holds_modify (fun _ _ => trivial) ?_
  intro b hb
  show b.scratch.map _ = _
  rw [show b.scratch = some d from hb]
  rfl

/-- The staging ends with the staged files in the scratch directory, as the hook left them. -/
theorem holds_stageFiles_scratch (env : Env) :
    (stageFiles env).Holds (Holding OrdMap.empty) (fun _ => True)
      (fun staged b => env.raw = .ok staged.1 ∧ AreData staged.2 ∧
        exists d, env.beforeValidate (filled staged.2) = .ok d ∧ Holding d b)
      (fun _ _ => True) := by
  refine (holds_kept kept_noteNodeIndex _).bind (fun _ => ?_)
  refine (holds_kept (kept_addLines _) _).bind (fun _ => ?_)
  refine Effect.holds_ofExcept_bind (fun _ _ _ _ => trivial) (fun nvml _ => ?_)
  refine (holds_kept (kept_noteMissing nvml) _).bind (fun _ => ?_)
  refine (holds_kept (kept_addLines _) _).bind (fun _ => ?_)
  refine Effect.holds_ofExcept_bind (fun _ _ _ _ => trivial) (fun raw hraw => ?_)
  refine (holds_kept (kept_addLine _) _).bind (fun _ => ?_)
  refine (holds_kept (kept_stagedFiles nvml) _).bind_of_yields (yields_stagedFiles nvml)
    (fun files hfiles => ?_)
  have hloop : (Effect.each (stage env) files).Holds (Holding OrdMap.empty) (fun _ => True)
      (fun _ => Holding (filled files)) (fun _ _ => True) := by
    refine Effect.holds_each (J := fun done => Holding (filled done)) files ?_ []
    intro done file _
    rw [filled_snoc]
    exact holds_stage file _
  refine hloop.bind (fun _ => ?_)
  refine Effect.Holds.bind (Q := fun _ b => exists d,
    env.beforeValidate (filled files) = .ok d ∧ Holding d b) ?_ (fun _ => ?_)
  · apply Effect.holds_get_bind
    intro s hs
    rw [show s.scratch.getD OrdMap.empty = filled files from
      congrArg (fun d => d.getD OrdMap.empty) hs]
    refine Effect.holds_ofExcept_bind (fun _ _ _ _ => trivial) (fun d hd => ?_)
    exact Effect.holds_modify (fun _ _ => trivial) (fun _ _ => ⟨d, hd, rfl⟩)
  · exact Effect.holds_pure (fun b hb => ⟨hraw, hfiles, hb⟩)

/-- A document in the scratch directory obeys its schema. -/
def Conforms (env : Env) (d : Scratched) (name : String) : Prop :=
  schemaFor name = true -> fileViolations env (some d) name = .ok (some [])

theorem holds_validateFile (file : String × Bytes) (d : Scratched) :
    (validateFile env file).Holds (Holding d) (fun _ => True)
      (fun valid b => Holding d b ∧ (valid = true -> Conforms env d file.1))
      (fun _ _ => True) := by
  unfold validateFile
  split_ifs with hschema
  · apply Effect.holds_get_bind
    intro s hs
    rw [show s.scratch = some d from hs]
    refine Effect.holds_ofExcept_bind (fun _ _ _ _ => trivial) (fun result hresult => ?_)
    have hstart : forall {A : Type} {m : M A}, m.Follows Kept -> m.Holds (· = s) (fun _ => True)
        (fun _ => Holding d) (fun _ _ => True) := by
      intro A m hm
      exact (holds_kept hm d).weaken (fun b hb => hb ▸ hs) (fun _ hb => hb) (fun _ _ hb => hb)
        (fun _ _ hb => hb)
    cases result with
    | none =>
        refine (hstart (kept_addLine _)).bind (fun _ => ?_)
        exact Effect.holds_pure (fun b hb => ⟨hb, fun hfalse => by cases hfalse⟩)
    | some paths =>
        refine (hstart (kept_addLines _)).bind (fun _ => ?_)
        refine Effect.holds_pure (fun b hb => ⟨hb, fun hempty _ => ?_⟩)
        rw [hresult, List.isEmpty_iff.mp hempty]
  · refine Effect.holds_pure (fun b hb => ⟨hb, fun _ hyes => ?_⟩)
    exact absurd hyes hschema

theorem holds_validateFiles (d : Scratched) (files : List (String × Bytes)) :
    (validateFiles env files).Holds (Holding d) (fun _ => True)
      (fun valid b => Holding d b ∧
        (valid = true -> forall file, file ∈ files -> Conforms env d file.1))
      (fun _ _ => True) := by
  induction files with
  | nil =>
      refine Effect.holds_pure (fun b hb => ⟨hb, fun _ file hfile => ?_⟩)
      cases hfile
  | cons file rest ih =>
      refine (holds_validateFile file d).bind (fun valid => ?_)
      refine Effect.Holds.bind (Q := fun others b => Holding d b ∧
        (valid = true -> Conforms env d file.1) ∧
        (others = true -> forall file, file ∈ rest -> Conforms env d file.1)) ?_ (fun others => ?_)
      · apply Effect.Holds.of_pre
        intro s hs
        refine ih.weaken (fun b hb => hb ▸ hs.1) (fun _ hb => hb) ?_ (fun _ _ hb => hb)
        intro _ b hb
        exact ⟨hb.1, hs.2, hb.2⟩
      · refine Effect.holds_pure (fun b hb => ⟨hb.1, fun hboth => ?_⟩)
        rw [Bool.and_eq_true] at hboth
        exact List.forall_mem_cons.mpr ⟨hb.2.1 hboth.1, hb.2.2 hboth.2⟩

theorem holds_validateStaged (d : Scratched) (files : List (String × Bytes)) :
    (validateStaged env files).Holds (Holding d) (fun _ => True)
      (fun valid b => Holding d b ∧
        (valid = true -> forall file, file ∈ files -> Conforms env d file.1))
      (fun _ _ => True) := by
  refine (holds_validateFiles d files).bind (fun valid => ?_)
  refine Effect.Holds.bind (Q := fun _ b => Holding d b ∧
    (valid = true -> forall file, file ∈ files -> Conforms env d file.1)) ?_
    (fun _ => Effect.holds_pure (fun _ hb => hb))
  exact Effect.holds_modify (fun _ _ => trivial) (fun b hb => hb)

theorem holds_stageDiagnostics (d : Scratched) :
    (stageDiagnostics env).Holds (Holding d) (fun _ => True)
      (fun _ b => exists text, Holding (d.insert "diagnostics.txt" text) b) (fun _ _ => True) := by
  apply Effect.holds_get_bind
  intro s hs
  refine (holds_stage ("diagnostics.txt", render s.diag ++ ascii "\n") d).weaken ?_
    (fun _ hb => hb) (fun _ b hb => ⟨_, hb⟩) (fun _ _ hb => hb)
  intro b hb
  rw [hb]
  exact hs

/-!
## The published bytes
-/

/-- The output holds the staged bytes under their names. -/
structure Copied (base : Out) (done : List (String × Bytes)) (b : Run) : Prop where
  own : Out.Changes base (fun name => name ∈ done.map Prod.fst) b.out
  bytes : forall name bytes, (filled done).find? name = some bytes ->
    b.out.entry name = some ⟨.file bytes, false⟩

theorem holds_publish_copied {base : Out} (hbase : Ready base) {done : List (String × Bytes)}
    {file : String × Bytes} (hfile : file.1 ∈ kDataFiles) :
    (publish sha256Hex env file).Holds (Copied base done) (fun _ => True)
      (fun _ => Copied base (done ++ [file])) (fun _ _ => True) := by
  have hsame : forall {f : Run -> Run}, (forall s, (f s).out = s.out) ->
      (Effect.modify f : M PUnit).Holds (Copied base done) (fun _ => True)
        (fun _ => Copied base done) (fun _ _ => True) := by
    intro f hf
    refine Effect.holds_modify (fun _ _ => trivial) ?_
    intro b hb
    constructor
    · rw [hf]
      exact hb.own
    · rw [hf]
      exact hb.bytes
  refine Effect.Holds.bind (Q := fun _ => Copied base done) (hsame ?_) (fun _ => ?_)
  · intro s
    split_ifs
    · rfl
    · rfl
  refine Effect.Holds.bind (Q := fun _ => Copied base done) (hsame ?_) (fun _ => ?_)
  · exact fun _ => rfl
  refine Effect.Holds.bind (Q := fun _ => Copied base (done ++ [file]))
    (holds_writeSynced _ (fun _ _ _ _ => trivial) ?_ (fun _ _ _ _ => trivial)
      (fun _ _ => trivial)) (fun _ => ?_)
  · intro b hb hopens
    constructor
    · refine (hb.own.mono ?_).write ?_ (hbase.clear_data hfile) hopens _
      · intro name hname
        rw [List.map_append]
        exact List.mem_append_left _ hname
      · rw [List.map_append]
        exact List.mem_append_right _ List.mem_cons_self
    · intro name bytes hname
      rw [filled_snoc, OrdMap.find?_insert] at hname
      by_cases heq : name = file.1
      · rw [if_pos heq] at hname
        cases hname
        rw [heq]
        exact hb.own.entry_write_self (hbase.clear_data hfile) hopens _
      · rw [if_neg heq] at hname
        show (b.out.write file.1 file.2).entry name = _
        rw [Out.entry_write _ hb.own.directory, if_neg heq]
        exact hb.bytes name bytes hname
  · exact Effect.holds_modify (fun _ _ => trivial) (fun b hb => ⟨hb.own, hb.bytes⟩)

/-- The files are replayed for the id, and copied. -/
theorem holds_publishAll_copied (env : Env) {base : Out} (hbase : Ready base)
    {files : List (String × Bytes)} (hfiles : AreData files) (d : Scratched) :
    (publishAll sha256Hex env files).Holds (fun b => b.out = base ∧ Holding d b) (fun _ => True)
      (fun _ b => Copied base files b ∧ exists text, env.replay d = .ok (.identity text) ∧
        b.manifest.topologyId = some ("topo1:sha256:" ++ sha256Hex text))
      (fun _ _ => True) := by
  have hreplayed : (replayed sha256Hex env).Holds (fun b => b.out = base ∧ Holding d b)
      (fun _ => True) (fun id b => b.out = base ∧ exists text,
        env.replay d = .ok (.identity text) ∧ id = "topo1:sha256:" ++ sha256Hex text)
      (fun _ _ => True) := by
    apply Effect.holds_get_bind
    intro s hs
    rw [show s.scratch.getD OrdMap.empty = d from congrArg (fun d => d.getD OrdMap.empty) hs.2]
    refine Effect.holds_ofExcept_bind (fun _ _ _ _ => trivial) (fun result hresult => ?_)
    cases result with
    | rejected code file =>
        refine Effect.Holds.bind (Q := fun _ _ => True)
          (Effect.holds_modify (fun _ _ => trivial) (fun _ _ => trivial)) (fun _ => ?_)
        exact Effect.holds_throw (fun _ _ => trivial)
    | identity text =>
        refine Effect.Holds.bind (Q := fun _ b => b.out = base)
          (Effect.holds_modify (fun _ _ => trivial) ?_) (fun _ => ?_)
        · intro b hb
          rw [hb]
          exact hs.1
        · exact Effect.holds_pure (fun b hb => ⟨hb, text, hresult, rfl⟩)
  refine hreplayed.bind (fun id => ?_)
  apply Effect.Holds.of_pre
  intro s hs
  have hloop : (Effect.each (publish sha256Hex env) files).Holds (· = s) (fun _ => True)
      (fun _ => Copied base files) (fun _ _ => True) := by
    refine (Effect.holds_each (J := fun done => Copied base done) files
      (fun done file hfile => holds_publish_copied hbase (hfiles.mem hfile)) []).weaken ?_
      (fun _ hb => hb) (fun _ _ hb => hb) (fun _ _ hb => hb)
    intro b hb
    rw [hb]
    constructor
    · rw [hs.1]
      exact Out.Changes.refl hbase.directory
    · intro name bytes hname
      cases hname
  refine hloop.bind (fun _ => ?_)
  obtain ⟨_, text, htext, hid⟩ := hs
  refine Effect.holds_modify (fun _ _ => trivial) ?_
  intro b hb
  refine ⟨⟨hb.own, hb.bytes⟩, text, htext, ?_⟩
  rw [hid]

end Scratch

/-!
## A run that returns no failure
-/

/-- What a success has checked, and what it has published of it: the files as they were staged,
the scratch directory that was validated, and the one that was searched and replayed. -/
structure Issued (sha256Hex : Bytes -> String) (env : Env) (base : Out) (raw : RawSet)
    (files : List (String × Bytes)) (staged checked : Scratched) (id : Option String) (out : Out) :
    Prop where
  collected : env.raw = .ok raw
  data : AreData files
  hooked : env.beforeValidate (filled files) = .ok staged
  valid : forall file, file ∈ files -> Conforms env staged file.1
  diagnostics : exists text, checked = staged.insert "diagnostics.txt" text
  unfound : stagedFindings env raw (some checked) (searchedNames files) = []
  replayed : exists text, env.replay checked = .ok (.identity text) ∧
    id = some ("topo1:sha256:" ++ sha256Hex text)
  copied : forall name bytes, (filled files).find? name = some bytes ->
    out.entry name = some ⟨.file bytes, false⟩
  others : forall name, name ∈ kDataFiles -> (filled files).find? name = none ->
    out.entry name = base.entry name

/-- Without a hook what is searched and replayed are the files that are published. -/
theorem Issued.find?_checked {sha256Hex : Bytes -> String} {env : Env} {base out : Out}
    {raw : RawSet} {files : List (String × Bytes)} {staged checked : Scratched} {id : Option String}
    (h : Issued sha256Hex env base raw files staged checked id out)
    (hhook : env.beforeValidate = .ok) {name : String} (hname : name ∈ kDataFiles) :
    checked.find? name = (filled files).find? name := by
  obtain ⟨diagnostics, hchecked⟩ := h.diagnostics
  have hstaged : filled files = staged := by
    have hhooked := h.hooked
    rw [hhook] at hhooked
    exact Except.ok.inj hhooked
  have hne : name ≠ "diagnostics.txt" := by
    revert name
    decide
  rw [hchecked, hstaged, OrdMap.find?_insert_of_ne _ _ hne]

section Success

variable {printer : Printer} {sha256Hex : Bytes -> String} {env : Env} {s : Run}

/-- A run that stops nowhere has gone through every step of the check. -/
theorem checkAndPublish_of_nothing {raw : RawSet} {files : List (String × Bytes)}
    (h : stopAtCheck sha256Hex env raw files s = .nothing) :
    exists c b, Effect.run (stageDiagnostics env) (noteSanitized s).state = (.ok ⟨⟩, c) ∧
      stagedFindings env raw c.scratch (searchedNames files) = [] ∧
      Effect.run (publishAll sha256Hex env files)
        (noteFindings env (searchedNames files).length [] c).state = (.ok ⟨⟩, b) ∧
      Effect.run (checkAndPublish sha256Hex env raw files) s = (.ok ⟨⟩, b) := by
  unfold stopAtCheck at h
  dsimp only at h
  cases hstaged : (stageDiagnostics env (noteSanitized s).state).result with
  | error e =>
      rw [hstaged] at h
      cases h
  | ok u =>
      rw [hstaged] at h
      dsimp only at h
      have hrun : Effect.run (leakCheck env raw files) (noteSanitized s).state = _ :=
        run_leakCheck_of_ok hstaged
      generalize hc : (stageDiagnostics env (noteSanitized s).state).state = c at h hrun
      by_cases hfound : stagedFindings env raw c.scratch (searchedNames files) = []
      · rw [hfound] at h hrun
        rw [if_neg (fun hne => hne rfl)] at h
        obtain ⟨stopped, hstopped, hvalue, _⟩ :=
          (@holds_noteFindings env (searchedNames files).length [] c).returns rfl
        have hpass : stopped = false := hvalue
        rw [hpass] at hstopped
        cases hpublish : (publishAll sha256Hex env files
            (noteFindings env (searchedNames files).length [] c).state).result with
        | error e =>
            rw [hpublish] at h
            cases h
        | ok u' =>
            refine ⟨c, _, Prod.ext hstaged hc, hfound, Prod.ext hpublish rfl, ?_⟩
            have hsanitized : (noteSanitized s).result = .ok ⟨⟩ := rfl
            unfold checkAndPublish
            rw [Effect.run_bind_of_ok _ hsanitized, Effect.run_bind_of_run _
              (hrun.trans (Prod.ext hstopped rfl))]
            exact Prod.ext hpublish rfl
      · rw [if_pos hfound] at h
        cases h

/-- A run that stops nowhere has validated what it staged. -/
theorem stageAndCheck_of_nothing (h : stopAtStaging sha256Hex env s = .nothing) :
    exists raw files b c, Effect.run (stageFiles env) s = (.ok (raw, files), b) ∧
      Effect.run (validateStaged env files) b = (.ok true, c) ∧
      stopAtCheck sha256Hex env raw files c = .nothing ∧
      Effect.run (stageAndCheck sha256Hex env) s =
        Effect.run (checkAndPublish sha256Hex env raw files) c := by
  unfold stopAtStaging at h
  dsimp only at h
  cases hstaged : (stageFiles env s).result with
  | error e =>
      rw [hstaged] at h
      cases h
  | ok staged =>
      rw [hstaged] at h
      dsimp only at h
      cases hvalid : (validateStaged env staged.2 (stageFiles env s).state).result with
      | error e =>
          rw [hvalid] at h
          cases h
      | ok valid =>
          rw [hvalid] at h
          cases valid with
          | false => cases h
          | true =>
              refine ⟨staged.1, staged.2, _, _, Prod.ext hstaged rfl, Prod.ext hvalid rfl, h, ?_⟩
              unfold stageAndCheck
              rw [Effect.run_bind_of_ok _ hstaged, Effect.run_bind_of_ok _ hvalid]
              rfl

/-- What a computation that starts with some files in the scratch directory returns. -/
theorem Holding.ends {A : Type} {m : M A} {d : Scratched} {Q : A -> Run -> Prop} {a : A} {b : Run}
    (hs : Holding d s) (h : m.Holds (Holding d) (fun _ => True) Q (fun _ _ => True))
    (hrun : Effect.run m s = (.ok a, b)) : Q a b := by
  have hend := (h s hs).2
  rw [show (m s).result = .ok a from congrArg Prod.fst hrun,
    show (m s).state = b from congrArg Prod.snd hrun] at hend
  exact hend

theorem Quiet.of_run {A : Type} {m : M A} {a : A} {b : Run} (h : m.Follows Quiet)
    (hrun : Effect.run m s = (.ok a, b)) : Quiet s b := by
  rw [<- show (m s).state = b from congrArg Prod.snd hrun]
  exact (h s).2

/-- The staging of a run that stops nowhere. -/
theorem issued_stageAndCheck (hbase : Ready s.out)
    (hscratch : Holding OrdMap.empty s) (h : stopAtStaging sha256Hex env s = .nothing) :
    exists raw files staged checked b, Effect.run (stageAndCheck sha256Hex env) s = (.ok ⟨⟩, b) ∧
      forall out, (forall name, name ∈ kDataFiles -> out.entry name = b.out.entry name) ->
        Issued sha256Hex env s.out raw files staged checked b.manifest.topologyId out := by
  obtain ⟨raw, files, s2, s3, hstaged, hvalidated, hcheck, hrun⟩ := stageAndCheck_of_nothing h
  obtain ⟨c, b, hdiagnostics, hfound, hpublished, hrest⟩ := checkAndPublish_of_nothing hcheck
  obtain ⟨hraw, hfiles, staged, hhook, hholding⟩ :=
    hscratch.ends (holds_stageFiles_scratch env) hstaged
  obtain ⟨hkept, hvalid⟩ := hholding.ends (holds_validateStaged staged files) hvalidated
  obtain ⟨text, htext⟩ := Holding.ends (s := (noteSanitized s3).state) hkept
    (holds_stageDiagnostics staged) hdiagnostics
  have hnoted : Holding (staged.insert "diagnostics.txt" text)
      (noteFindings env (searchedNames files).length [] c).state :=
    ((@kept_noteFindings env (searchedNames files).length [] c).2).trans htext
  have hout : (noteFindings env (searchedNames files).length [] c).state.out = s.out := by
    obtain ⟨_, _, _, hquiet⟩ :=
      (@holds_noteFindings env (searchedNames files).length [] c).returns rfl
    have hmarked := ((holds_stageFiles env s) s (refl_of Quiet s)).2
    rw [show (stageFiles env s).result = _ from congrArg Prod.fst hstaged,
      show (stageFiles env s).state = s2 from congrArg Prod.snd hstaged] at hmarked
    obtain ⟨_, _, _, hmark⟩ := hmarked
    rw [hquiet.out, (Quiet.of_run quiet_stageDiagnostics hdiagnostics).out]
    show s3.out = s.out
    rw [(Quiet.of_run (quiet_validateStaged env files) hvalidated).out, hmark.out]
  have hend := (@holds_publishAll_copied sha256Hex env _ hbase _ hfiles
    (staged.insert "diagnostics.txt" text)) _ ⟨hout, hnoted⟩
  have hcopied := hend.2
  rw [show (publishAll sha256Hex env files _).result = .ok ⟨⟩ from congrArg Prod.fst hpublished,
    show (publishAll sha256Hex env files _).state = b from congrArg Prod.snd hpublished] at hcopied
  obtain ⟨hcopied, hreplayed⟩ := hcopied
  refine ⟨raw, files, staged, staged.insert "diagnostics.txt" text, b, hrun.trans hrest, ?_⟩
  intro out hsame
  constructor
  · exact hraw
  · exact hfiles
  · exact hhook
  · exact hvalid rfl
  · exact ⟨text, rfl⟩
  · rw [<- hfound, htext]
  · exact hreplayed
  · intro name bytes hname
    have hmem : name ∈ files.map Prod.fst := by
      by_contra hnot
      rw [find?_filled_eq_none.mpr hnot] at hname
      cases hname
    rw [hsame name (hfiles.names.subset hmem)]
    exact hcopied.bytes name bytes hname
  · intro name hname hnone
    rw [hsame name hname]
    by_contra hne
    exact find?_filled_eq_none.mp hnone (hcopied.own.owned name hne).1

theorem stopAtStaging_of_nothing (h : stopOf sha256Hex env s = .nothing) :
    exists b, Effect.run (makeScratch env) s = (.ok ⟨⟩, b) ∧ Holding OrdMap.empty b ∧
      stopAtStaging sha256Hex env b = .nothing := by
  unfold stopOf at h
  dsimp only at h
  cases hmade : (makeScratch env s).result with
  | error e =>
      rw [hmade] at h
      cases h
  | ok u =>
      rw [hmade] at h
      refine ⟨_, Prod.ext hmade rfl, ?_, h⟩
      have hscratch : (makeScratch env).Holds (· = s) (fun _ => True)
          (fun _ => Holding OrdMap.empty) (fun _ _ => True) := by
        refine Effect.holds_throwIf_bind (fun _ _ _ => trivial) (fun _ => ?_)
        refine Effect.Holds.bind (Q := fun _ => Holding OrdMap.empty)
          (Effect.holds_modify (fun _ _ => trivial) (fun _ _ => rfl)) (fun _ => ?_)
        exact holds_kept (kept_trackForCleanup _) _
      have hend := (hscratch s rfl).2
      rw [hmade] at hend
      exact hend

/-- A run in a prepared directory that returns no failure publishes what it has checked. -/
theorem go_issued (hs : Fresh s) (hbase : Ready s.out)
    (hroom : s.tracked.length + 18 ≤ kMaxTracked) {outcome : CaptureOutcome}
    (h : (go printer sha256Hex env s.tracked.length s).result = .ok outcome)
    (hexit : outcome.exitCode = 0 ∨ outcome.exitCode = 2) :
    exists raw files staged checked, Issued sha256Hex env s.out raw files staged checked
      outcome.topologyId (go printer sha256Hex env s.tracked.length s).state.out := by
  obtain ⟨hstop, hfinished, _⟩ := Consumer.go_finished hs hbase hroom h hexit
  have hnot : ¬ (outcome.exitCode = 1 ∨ outcome.exitCode = 3) := by omega
  obtain ⟨hdata, hid⟩ := Consumer.data_of_finished hfinished hnot
  obtain ⟨b, hmade, hscratch, hstaging⟩ := stopAtStaging_of_nothing hstop
  have hquiet : Quiet s b := Quiet.of_run quiet_makeScratch hmade
  obtain ⟨raw, files, staged, checked, c, hrun, hissued⟩ := issued_stageAndCheck
    (hquiet.out.symm ▸ hbase) hscratch hstaging
  have hstate : stagedState sha256Hex env s = { c with scratch := none } := by
    have hwith : Effect.run (withScratch env (stageAndCheck sha256Hex env)) s =
        (.ok ⟨⟩, { c with scratch := none }) := by
      unfold withScratch
      rw [Effect.run_bind_of_run _ hmade]
      exact congrArg (fun o : Except Exn PUnit × Run => (o.1, { o.2 with scratch := none })) hrun
    have hhandle : Effect.run (Effect.handle (withScratch env (stageAndCheck sha256Hex env))
        failWith) s = _ := Effect.run_handle_of_ok failWith (congrArg Prod.fst hwith)
    exact (congrArg Prod.snd hhandle).trans (congrArg Prod.snd hwith)
  rw [hstate] at hdata hid
  rw [hid, <- hquiet.out]
  exact ⟨raw, files, staged, checked, hissued _ hdata⟩

end Success

end Capture
end Ostia

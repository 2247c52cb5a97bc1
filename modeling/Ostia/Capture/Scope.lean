import Ostia.Capture.Pipeline

/-!
# What a run changes and tracks

Between the start of its cleanup scope and its end a run changes its output only by files of
its own, under reserved names, and every such name is tracked before it is written.  The
table of tracked paths is bounded; the count of a computation is how many entries it can add.
-/

namespace Ostia
namespace Capture

open Foundation

/-- An output directory that is prepared: every reserved name is free. -/
structure Ready (base : Out) : Prop where
  directory : base.IsDirectory
  clear : forall name, reserved name -> base.Clear name
  manifest : base.entry "manifest.json" = none

theorem Ready.clear_data {base : Out} (h : Ready base) {name : String}
    (hname : name ∈ kDataFiles) : base.Clear name := h.clear name (Or.inl hname)

theorem Ready.clear_record {base : Out} (h : Ready base) {name : String}
    (hname : name ∈ kRecordFiles) : base.Clear name := h.clear name (Or.inr hname)

/-- A path that a run tracks in its scope. -/
def Path.Own : Path -> Prop
  | .scratchDir => True
  | .scratch _ => True
  | .outDir => False
  | .out name => reserved name

/-- A run in its scope, with at most n paths tracked since the scope began. -/
structure Within (base : Out) (mark : List Path) (records : List String) (n : Nat) (s : Run) :
    Prop where
  changes : Out.Changes base
    (fun name => (name ∈ s.written ∨ name ∈ records) ∧ Path.out name ∈ s.tracked) s.out
  written : forall name, name ∈ s.written -> name ∈ kDataFiles
  marked : mark <+: s.tracked
  paths : forall path, path ∈ s.tracked -> path ∈ mark ∨ path.Own
  room : s.tracked.length ≤ mark.length + n

namespace Within

variable {base : Out} {mark : List Path} {records records' : List String} {n n' : Nat}
  {s s' : Run}

/-- Only the output, the written names and the tracked paths matter. -/
theorem congr (h : Within base mark records n s) (hout : s'.out = s.out)
    (hwritten : s'.written = s.written) (htracked : s'.tracked = s.tracked) :
    Within base mark records n s' := by
  refine ⟨?_, ?_, ?_, ?_, ?_⟩
  · rw [hout, hwritten, htracked]
    exact h.changes
  · rw [hwritten]
    exact h.written
  · rw [htracked]
    exact h.marked
  · rw [htracked]
    exact h.paths
  · rw [htracked]
    exact h.room

theorem mono (h : Within base mark records n s) (hn : n ≤ n') :
    Within base mark records n' s :=
  ⟨h.changes, h.written, h.marked, h.paths, h.room.trans (Nat.add_le_add_left hn _)⟩

theorem records_mono (h : Within base mark records n s)
    (hsub : forall name, name ∈ records -> name ∈ records') :
    Within base mark records' n s := by
  refine ⟨h.changes.mono ?_, h.written, h.marked, h.paths, h.room⟩
  intro name hname
  exact ⟨hname.1.imp id (hsub name), hname.2⟩

/-- The output changes under names that are tracked. -/
theorem setOut {out : Out} (h : Within base mark records n s)
    (hout : Out.Changes base
      (fun name => (name ∈ s.written ∨ name ∈ records) ∧ Path.out name ∈ s.tracked) out) :
    Within base mark records n { s with out := out } :=
  ⟨hout, h.written, h.marked, h.paths, h.room⟩

/-- Track one more path. -/
theorem track (h : Within base mark records n s) {path : Path} (hpath : path.Own) :
    Within base mark records (n + 1) { s with tracked := s.tracked ++ [path] } := by
  refine ⟨h.changes.mono ?_, h.written, h.marked.trans (List.prefix_append _ _), ?_, ?_⟩
  · intro name hname
    exact ⟨hname.1, List.mem_append_left _ hname.2⟩
  · intro other hother
    rcases List.mem_append.mp hother with hother | hother
    · exact h.paths other hother
    · rw [List.mem_singleton.mp hother]
      exact Or.inr hpath
  · rw [List.length_append, List.length_singleton, ← Nat.add_assoc]
    exact Nat.succ_le_succ h.room

theorem claim {name : String} (h : Within base mark records n s) (hname : name ∈ kDataFiles) :
    Within base mark records n { s with written := s.written ++ [name] } := by
  refine ⟨h.changes.mono ?_, ?_, h.marked, h.paths, h.room⟩
  · intro other hother
    exact ⟨hother.1.imp (List.mem_append_left _) id, hother.2⟩
  · intro other hother
    rcases List.mem_append.mp hother with hother | hother
    · exact h.written other hother
    · rw [List.mem_singleton.mp hother]
      exact hname

theorem tracked_lt (h : Within base mark records n s) (hroom : mark.length + n < kMaxTracked) :
    ¬ s.tracked.length ≥ kMaxTracked := Nat.not_le.mpr (h.room.trans_lt hroom)

end Within

/-!
## Counting tracked paths
-/

section Costs

variable (base : Out) (mark : List Path) (records : List String)

/-- A computation stays in its scope and tracks at most k more paths. -/
def Costs {A : Type} (k : Nat) (m : M A) : Prop :=
  forall n, mark.length + (n + k) ≤ kMaxTracked ->
    m.Holds (Within base mark records n) (Within base mark records (n + k))
      (fun _ => Within base mark records (n + k)) (fun _ => Within base mark records (n + k))

variable {base mark records} {A B : Type} {k k' : Nat}

theorem Costs.mono {m : M A} (h : Costs base mark records k m) (hk : k ≤ k') :
    Costs base mark records k' m := by
  intro n hroom
  have hle : n + k ≤ n + k' := Nat.add_le_add_left hk n
  exact (h n ((Nat.add_le_add_left hle _).trans hroom)).weaken (fun _ hs => hs)
    (fun _ hs => hs.mono hle) (fun _ _ hs => hs.mono hle) (fun _ _ hs => hs.mono hle)

theorem Costs.bind_of_yields {m : M A} {f : A -> M B} {p : A -> Prop}
    (hm : Costs base mark records k m) (hp : m.Yields p)
    (hf : forall a, p a -> Costs base mark records k' (f a)) :
    Costs base mark records (k + k') (m >>= f) := by
  intro n hroom
  have hle : n + k ≤ n + (k + k') := Nat.add_le_add_left (Nat.le_add_right k k') n
  have hfirst := (hm n ((Nat.add_le_add_left hle _).trans hroom)).weaken (fun _ hs => hs)
    (fun _ hs => hs.mono hle) (fun _ _ hs => hs) (fun _ _ hs => hs.mono hle)
  refine hfirst.bind_of_yields hp ?_
  intro a ha
  have hsecond := hf a ha (n + k)
  rw [Nat.add_assoc] at hsecond
  exact hsecond hroom

theorem Costs.bind {m : M A} {f : A -> M B} (hm : Costs base mark records k m)
    (hf : forall a, Costs base mark records k' (f a)) :
    Costs base mark records (k + k') (m >>= f) :=
  hm.bind_of_yields (p := fun _ => True) (fun _ _ _ => trivial) (fun a _ => hf a)

/-- A step that tracks nothing costs nothing. -/
theorem Costs.quiet_bind {m : M A} {f : A -> M B} (hm : Costs base mark records 0 m)
    (hf : forall a, Costs base mark records k (f a)) :
    Costs base mark records k (m >>= f) := by
  have h := hm.bind hf
  rw [Nat.zero_add] at h
  exact h

/-- After the step that tracks, the others cost nothing. -/
theorem Costs.bind_quiet {m : M A} {f : A -> M B} (hm : Costs base mark records k m)
    (hf : forall a, Costs base mark records 0 (f a)) : Costs base mark records k (m >>= f) :=
  hm.bind hf

theorem Costs.quiet_bind_of_yields {m : M A} {f : A -> M B} {p : A -> Prop}
    (hm : Costs base mark records 0 m) (hp : m.Yields p)
    (hf : forall a, p a -> Costs base mark records k (f a)) :
    Costs base mark records k (m >>= f) := by
  have h := hm.bind_of_yields hp hf
  rw [Nat.zero_add] at h
  exact h

theorem Costs.handle {m : M A} {handler : Exn -> M A} (hm : Costs base mark records k m)
    (hhandler : forall e, Costs base mark records k' (handler e)) :
    Costs base mark records (k + k') (m.handle handler) := by
  intro n hroom
  have hle : n + k ≤ n + (k + k') := Nat.add_le_add_left (Nat.le_add_right k k') n
  have hfirst := (hm n ((Nat.add_le_add_left hle _).trans hroom)).weaken (fun _ hs => hs)
    (fun _ hs => hs.mono hle) (fun _ _ hs => hs.mono hle) (fun _ _ hs => hs)
  refine hfirst.handle ?_
  intro e
  have hsecond := hhandler e (n + k)
  rw [Nat.add_assoc] at hsecond
  exact hsecond hroom

theorem Costs.handle_quiet {m : M A} {handler : Exn -> M A} (hm : Costs base mark records k m)
    (hhandler : forall e, Costs base mark records 0 (handler e)) :
    Costs base mark records k (m.handle handler) := hm.handle hhandler

theorem Costs.each {X : Type} {f : X -> M PUnit} (xs : List X)
    (hf : forall x, x ∈ xs -> Costs base mark records k (f x)) :
    Costs base mark records (xs.length * k) (Effect.each f xs) := by
  induction xs with
  | nil =>
      intro n hroom
      exact Effect.holds_pure (fun s hs => hs.mono (Nat.le_add_right n _))
  | cons x rest ih =>
      rw [List.length_cons, Nat.succ_mul, Nat.add_comm]
      apply Costs.bind (hf x List.mem_cons_self)
      intro _
      exact ih (fun y hy => hf y (List.mem_cons_of_mem x hy))

theorem costs_pure (a : A) : Costs base mark records 0 (pure a : M A) := by
  intro n _
  exact Effect.holds_pure (fun s hs => hs)

theorem costs_throw (e : Exn) : Costs base mark records 0 (Effect.throw e : M A) := by
  intro n _
  exact Effect.holds_throw (fun s hs => hs)

theorem costs_get : Costs base mark records 0 (Effect.get : M Run) := by
  intro n _
  exact Effect.holds_get (fun s hs => hs)

theorem costs_throwIf (c : Bool) (e : Exn) :
    Costs base mark records 0 (Effect.throwIf c e : M PUnit) := by
  intro n _
  exact Effect.holds_throwIf (fun s _ hs => hs) (fun s _ hs => hs)

theorem costs_ofExcept (r : Except Exn A) :
    Costs base mark records 0 (Effect.ofExcept r : M A) := by
  intro n _
  exact Effect.holds_ofExcept (fun a s _ hs => hs) (fun e s _ hs => hs)

theorem costs_modify {f : Run -> Run} (hout : forall s, (f s).out = s.out)
    (hwritten : forall s, (f s).written = s.written)
    (htracked : forall s, (f s).tracked = s.tracked) :
    Costs base mark records 0 (Effect.modify f : M PUnit) := by
  intro n _
  have hkeep : forall s, Within base mark records n s -> Within base mark records (n + 0) (f s) :=
    fun s hs => hs.congr (hout s) (hwritten s) (htracked s)
  exact Effect.holds_modify hkeep hkeep

theorem costs_trackForCleanup (path : Path) (hpath : path.Own) :
    Costs base mark records 1 (trackForCleanup path) := by
  intro n hroom
  have hkeep : forall s, Within base mark records n s -> Within base mark records (n + 1)
      (if s.tracked.length ≥ kMaxTracked then s
        else { s with tracked := s.tracked ++ [path] }) := by
    intro s hs
    rw [if_neg (hs.tracked_lt hroom)]
    exact hs.track hpath
  exact Effect.holds_modify hkeep hkeep

theorem costs_addLine (line : Bytes) : Costs base mark records 0 (addLine line) :=
  costs_modify (fun _ => rfl) (fun _ => rfl) (fun _ => rfl)

theorem costs_addLines (lines : List Bytes) : Costs base mark records 0 (addLines lines) :=
  Costs.each lines (fun line _ => costs_addLine line)

theorem costs_ite {c : Prop} [Decidable c] {m m' : M A} (hm : Costs base mark records k m)
    (hm' : Costs base mark records k m') : Costs base mark records k (if c then m else m') := by
  split_ifs
  · exact hm
  · exact hm'

end Costs

/-!
## Writing a file
-/

/-- Every state of the writing of a file has a part of its bytes under the name. -/
theorem holds_writeSynced {P I : Run -> Prop} {Q : PUnit -> Run -> Prop}
    {R : Exn -> Run -> Prop} {name : String} {bytes : Bytes} {exclusive : Bool} (f : WriteFault)
    (hpart : forall s, P s -> s.out.opens name exclusive = true ->
      forall part, I { s with out := s.out.write name part })
    (hdone : forall s, P s -> s.out.opens name exclusive = true ->
      Q ⟨⟩ { s with out := s.out.write name bytes })
    (hstop : forall s, P s -> s.out.opens name exclusive = true ->
      forall part, R .system { s with out := s.out.write name part })
    (hclosed : forall s, P s -> R .system s) :
    (writeSynced name bytes exclusive f).Holds P I Q R := by
  apply Effect.holds_get_bind
  intro s hs
  split_ifs with hopens
  · have hopened : s.out.opens name exclusive = true := ((Bool.and_eq_true _ _).mp hopens).2
    -- The loop keeps one fact: the output is the first one with a part of the bytes.
    have hset : forall part, (setFile name part).Holds
        (fun b => exists old, b = { s with out := s.out.write name old }) I
        (fun _ b => b = { s with out := s.out.write name part }) R := by
      intro part
      have hwrite : forall b, (exists old, b = { s with out := s.out.write name old }) ->
          { b with out := b.out.write name part } =
            ({ s with out := s.out.write name part } : Run) := by
        rintro b ⟨old, rfl⟩
        exact congrArg (fun out => ({ s with out := out } : Run)) (Out.write_write _ _ _ _)
      apply Effect.holds_modify
      · intro b hb
        rw [hwrite b hb]
        exact hpart s hs hopened part
      · intro b hb
        exact hwrite b hb
    have hfirst : (setFile name []).Holds (· = s) I
        (fun _ b => exists old, b = { s with out := s.out.write name old }) R := by
      apply Effect.holds_modify
      · rintro b rfl
        exact hpart b hs hopened []
      · rintro b rfl
        exact ⟨[], rfl⟩
    refine hfirst.bind (fun _ => ?_)
    refine Effect.Holds.bind (Effect.holds_each
      (J := fun _ b => exists old, b = { s with out := s.out.write name old }) f.cuts ?_ [])
      (fun _ => ?_)
    · intro _ n _
      exact (hset (bytes.take n)).weaken (fun _ hb => hb) (fun _ hb => hb)
        (fun _ _ hb => ⟨_, hb⟩) (fun _ _ hb => hb)
    · split
      · refine (hset _).bind (fun _ => ?_)
        apply Effect.holds_throw
        rintro b rfl
        exact hstop s hs hopened _
      · refine (hset bytes).weaken (fun _ hb => hb) (fun _ hb => hb) ?_ (fun _ _ hb => hb)
        rintro _ b rfl
        exact hdone s hs hopened
  · apply Effect.holds_throw
    rintro b rfl
    exact hclosed b hs

/-!
## Staging and publishing
-/

section Staging

variable {base : Out} {mark : List Path} {records : List String}

theorem costs_fail (code : ErrorCode) (leakOrSchema : Bool) :
    Costs base mark records 0 (fail code leakOrSchema) :=
  costs_modify (fun _ => rfl) (fun _ => rfl) (fun _ => rfl)

theorem costs_failIf (c : Bool) (code : ErrorCode) (leakOrSchema : Bool) :
    Costs base mark records 0 (failIf c code leakOrSchema) :=
  costs_ite (costs_fail code leakOrSchema) (costs_pure _)

theorem costs_failWith (e : Exn) : Costs base mark records 0 (failWith e) := by
  cases e with
  | abort code => exact costs_fail code false
  | noScratch => exact (costs_addLine _).quiet_bind (fun _ => costs_fail _ _)
  | system => exact (costs_addLine _).quiet_bind (fun _ => costs_fail _ _)
  | standard => exact (costs_addLine _).quiet_bind (fun _ => costs_fail _ _)
  | nonstandard => exact (costs_addLine _).quiet_bind (fun _ => costs_fail _ _)

theorem costs_readLinks (links : Links) : Costs base mark records 0 (readLinks links) := by
  cases links with
  | unreadable => exact (costs_addLine _).quiet_bind (fun _ => costs_throw _)
  | invalid paths => exact (costs_addLines _).quiet_bind (fun _ => costs_throw _)
  | text bytes => exact costs_ofExcept bytes

variable {sha256Hex : Bytes -> String} {env : Env}

theorem costs_emitXml : Costs base mark records 0 (emitXml env) := by
  refine (costs_addLines _).quiet_bind (fun _ => ?_)
  refine (costs_ofExcept _).quiet_bind (fun _ => ?_)
  refine (costs_ofExcept _).quiet_bind (fun _ => ?_)
  refine (costs_ofExcept _).quiet_bind (fun _ => ?_)
  apply costs_ite
  · exact (costs_addLine _).quiet_bind (fun _ => costs_pure _)
  · exact (costs_addLine _).quiet_bind (fun _ => costs_throw _)

theorem costs_nvmlFile (nvml : Nvml) : Costs base mark records 0 (nvmlFile nvml) := by
  cases nvml with
  | notRequired => exact costs_pure _
  | missing reason => exact costs_pure _
  | facts text => exact (costs_ofExcept _).quiet_bind (fun _ => costs_pure _)

theorem costs_linksFile (links : Option Links) :
    Costs base mark records 0 (linksFile links) := by
  cases links with
  | none => exact costs_pure _
  | some links => exact (costs_readLinks links).quiet_bind (fun _ => costs_pure _)

theorem costs_stagedFiles (nvml : Nvml) :
    Costs base mark records 0 (stagedFiles env nvml) := by
  refine costs_emitXml.quiet_bind (fun _ => ?_)
  refine (costs_nvmlFile nvml).quiet_bind (fun _ => ?_)
  refine (costs_ofExcept _).quiet_bind (fun _ => ?_)
  refine (costs_linksFile _).quiet_bind (fun _ => ?_)
  exact (costs_ofExcept _).quiet_bind (fun _ => costs_pure _)

/-- The files that every capture writes. -/
def alwaysFiles : List String := ["hwloc.xml", "nics.json", "meta.json"]

/-- The files of a capture: a part of the data files, in their order. -/
structure AreData (files : List (String × Bytes)) : Prop where
  names : (files.map Prod.fst).Sublist kDataFiles
  always : forall name, name ∈ alwaysFiles -> name ∈ files.map Prod.fst

theorem AreData.length_le {files : List (String × Bytes)} (h : AreData files) :
    files.length ≤ 5 := by
  have hle := h.names.length_le
  rw [List.length_map] at hle
  exact hle

theorem AreData.mem {files : List (String × Bytes)} (h : AreData files) {file : String × Bytes}
    (hfile : file ∈ files) : file.1 ∈ kDataFiles := h.names.subset (List.mem_map_of_mem hfile)

theorem yields_nvmlFile (nvml : Nvml) :
    (nvmlFile nvml).Yields fun files => (files.map Prod.fst).Sublist ["nvml.json"] := by
  cases nvml with
  | notRequired => exact Effect.yields_pure (List.nil_sublist _)
  | missing reason => exact Effect.yields_pure (List.nil_sublist _)
  | facts text =>
      refine Effect.Yields.bind (p := fun _ => True) (fun _ _ _ => trivial) (fun bytes _ => ?_)
      exact Effect.yields_pure (List.Sublist.refl _)

theorem yields_linksFile (links : Option Links) :
    (linksFile links).Yields fun files => (files.map Prod.fst).Sublist ["links.json"] := by
  cases links with
  | none => exact Effect.yields_pure (List.nil_sublist _)
  | some links =>
      refine Effect.Yields.bind (p := fun _ => True) (fun _ _ _ => trivial) (fun bytes _ => ?_)
      exact Effect.yields_pure (List.Sublist.refl _)

theorem yields_stagedFiles (nvml : Nvml) : (stagedFiles env nvml).Yields AreData := by
  refine Effect.Yields.bind (p := fun _ => True) (fun _ _ _ => trivial) (fun xml _ => ?_)
  refine (yields_nvmlFile nvml).bind (fun nvmlPart hnvml => ?_)
  refine Effect.Yields.bind (p := fun _ => True) (fun _ _ _ => trivial) (fun nics _ => ?_)
  refine (yields_linksFile env.links).bind (fun linksPart hlinks => ?_)
  refine Effect.Yields.bind (p := fun _ => True) (fun _ _ _ => trivial) (fun metaBytes _ => ?_)
  apply Effect.yields_pure
  constructor
  · simp only [List.map_append]
    exact ((((List.Sublist.refl ["hwloc.xml"]).append hnvml).append
      (List.Sublist.refl ["nics.json"])).append hlinks).append (List.Sublist.refl ["meta.json"])
  · intro name hname
    simp only [alwaysFiles, List.mem_cons, List.not_mem_nil, or_false] at hname
    rcases hname with rfl | rfl | rfl
    · simp
    · simp
    · simp

theorem costs_stage (file : String × Bytes) : Costs base mark records 1 (stage env file) := by
  refine (costs_trackForCleanup (.scratch file.1) trivial).bind_quiet (fun _ => ?_)
  refine (costs_throwIf _ _).quiet_bind (fun _ => ?_)
  exact costs_modify (fun _ => rfl) (fun _ => rfl) (fun _ => rfl)

theorem costs_noteNodeIndex : Costs base mark records 0 (noteNodeIndex env) := by
  unfold noteNodeIndex
  split
  · exact costs_addLine _
  · exact costs_pure _

theorem costs_noteMissing (nvml : Nvml) : Costs base mark records 0 (noteMissing nvml) := by
  cases nvml with
  | notRequired => exact costs_pure _
  | missing reason => exact costs_modify (fun _ => rfl) (fun _ => rfl) (fun _ => rfl)
  | facts text => exact costs_pure _

theorem costs_runBeforeValidate : Costs base mark records 0 (runBeforeValidate env) := by
  refine costs_get.quiet_bind (fun _ => ?_)
  refine (costs_ofExcept _).quiet_bind (fun _ => ?_)
  exact costs_modify (fun _ => rfl) (fun _ => rfl) (fun _ => rfl)

theorem costs_stageFiles : Costs base mark records 5 (stageFiles env) := by
  refine costs_noteNodeIndex.quiet_bind (fun _ => ?_)
  refine (costs_addLines _).quiet_bind (fun _ => ?_)
  refine (costs_ofExcept _).quiet_bind (fun nvml => ?_)
  refine (costs_noteMissing nvml).quiet_bind (fun _ => ?_)
  refine (costs_addLines _).quiet_bind (fun _ => ?_)
  refine (costs_ofExcept _).quiet_bind (fun raw => ?_)
  refine (costs_addLine _).quiet_bind (fun _ => ?_)
  refine (costs_stagedFiles nvml).quiet_bind_of_yields (yields_stagedFiles nvml) ?_
  intro files hfiles
  have heach : Costs base mark records 5 (Effect.each (stage env) files) := by
    apply (Costs.each files (fun file _ => costs_stage file)).mono
    rw [Nat.mul_one]
    exact hfiles.length_le
  refine heach.bind_quiet (fun _ => ?_)
  exact costs_runBeforeValidate.quiet_bind (fun _ => costs_pure _)

theorem yields_stageFiles : (stageFiles env).Yields fun staged => AreData staged.2 := by
  refine Effect.Yields.bind (p := fun _ => True) (fun _ _ _ => trivial) (fun _ _ => ?_)
  refine Effect.Yields.bind (p := fun _ => True) (fun _ _ _ => trivial) (fun _ _ => ?_)
  refine Effect.Yields.bind (p := fun _ => True) (fun _ _ _ => trivial) (fun nvml _ => ?_)
  refine Effect.Yields.bind (p := fun _ => True) (fun _ _ _ => trivial) (fun _ _ => ?_)
  refine Effect.Yields.bind (p := fun _ => True) (fun _ _ _ => trivial) (fun _ _ => ?_)
  refine Effect.Yields.bind (p := fun _ => True) (fun _ _ _ => trivial) (fun raw _ => ?_)
  refine Effect.Yields.bind (p := fun _ => True) (fun _ _ _ => trivial) (fun _ _ => ?_)
  refine (yields_stagedFiles nvml).bind (fun files hfiles => ?_)
  refine Effect.Yields.bind (p := fun _ => True) (fun _ _ _ => trivial) (fun _ _ => ?_)
  refine Effect.Yields.bind (p := fun _ => True) (fun _ _ _ => trivial) (fun _ _ => ?_)
  exact Effect.yields_pure hfiles

theorem costs_validateFile (file : String × Bytes) :
    Costs base mark records 0 (validateFile env file) := by
  apply costs_ite
  · refine costs_get.quiet_bind (fun _ => ?_)
    refine (costs_ofExcept _).quiet_bind (fun result => ?_)
    cases result with
    | none => exact (costs_addLine _).quiet_bind (fun _ => costs_pure _)
    | some paths => exact (costs_addLines _).quiet_bind (fun _ => costs_pure _)
  · exact costs_pure _

theorem costs_validateFiles (files : List (String × Bytes)) :
    Costs base mark records 0 (validateFiles env files) := by
  induction files with
  | nil => exact costs_pure _
  | cons file rest ih =>
      refine (costs_validateFile file).quiet_bind (fun _ => ?_)
      exact ih.quiet_bind (fun _ => costs_pure _)

theorem costs_validateStaged (files : List (String × Bytes)) :
    Costs base mark records 0 (validateStaged env files) := by
  refine (costs_validateFiles files).quiet_bind (fun _ => ?_)
  exact (costs_addLine _).quiet_bind (fun _ => costs_pure _)

theorem costs_noteFindings (searched : Nat) (findings : List Finding) :
    Costs base mark records 0 (noteFindings env searched findings) := by
  refine (costs_addLine _).quiet_bind (fun _ => ?_)
  refine (costs_addLines _).quiet_bind (fun _ => ?_)
  refine Costs.quiet_bind ?_ (fun _ => ?_)
  · exact costs_modify (fun _ => rfl) (fun _ => rfl) (fun _ => rfl)
  · refine (costs_failIf _ _ _).quiet_bind (fun _ => ?_)
    exact (costs_failIf _ _ _).quiet_bind (fun _ => costs_pure _)

theorem costs_stageDiagnostics : Costs base mark records 1 (stageDiagnostics env) :=
  costs_get.quiet_bind (fun _ => costs_stage _)

theorem costs_leakCheck (raw : RawSet) (files : List (String × Bytes)) :
    Costs base mark records 1 (leakCheck env raw files) := by
  refine costs_stageDiagnostics.bind_quiet (fun _ => ?_)
  exact costs_get.quiet_bind (fun _ => costs_noteFindings _ _)

theorem costs_replayed : Costs base mark records 0 (replayed sha256Hex env) := by
  refine costs_get.quiet_bind (fun _ => ?_)
  refine (costs_ofExcept _).quiet_bind (fun result => ?_)
  cases result with
  | rejected code file => exact (costs_addLine _).quiet_bind (fun _ => costs_throw _)
  | identity text => exact (costs_addLine _).quiet_bind (fun _ => costs_pure _)

/-- A published name is tracked and noted before it is written. -/
theorem costs_publish (hbase : Ready base) {file : String × Bytes}
    (hfile : file.1 ∈ kDataFiles) :
    Costs base mark records 1 (publish sha256Hex env file) := by
  intro n hroom
  have htrack : (trackForCleanup (.out file.1)).Holds (Within base mark records n)
      (Within base mark records (n + 1))
      (fun _ s => Within base mark records (n + 1) s ∧ Path.out file.1 ∈ s.tracked)
      (fun _ => Within base mark records (n + 1)) := by
    apply Effect.holds_modify
    · intro s hs
      rw [if_neg (hs.tracked_lt hroom)]
      exact hs.track (Or.inl hfile)
    · intro s hs
      rw [if_neg (hs.tracked_lt hroom)]
      exact ⟨hs.track (Or.inl hfile), List.mem_append_right _ List.mem_cons_self⟩
  refine htrack.bind (fun _ => ?_)
  have hclaim : Effect.Holds (Effect.modify fun s : Run =>
        { s with written := s.written ++ [file.1] })
      (fun s => Within base mark records (n + 1) s ∧ Path.out file.1 ∈ s.tracked)
      (Within base mark records (n + 1))
      (fun _ s => Within base mark records (n + 1) s ∧ file.1 ∈ s.written ∧
        Path.out file.1 ∈ s.tracked)
      (fun _ : Exn => Within base mark records (n + 1)) := by
    apply Effect.holds_modify
    · intro s hs
      exact hs.1.claim hfile
    · intro s hs
      exact ⟨hs.1.claim hfile, List.mem_append_right _ List.mem_cons_self, hs.2⟩
  refine hclaim.bind (fun _ => ?_)
  have hwrite : (writeSynced file.1 file.2 false (env.write (.data file.1))).Holds
      (fun s => Within base mark records (n + 1) s ∧ file.1 ∈ s.written ∧
        Path.out file.1 ∈ s.tracked)
      (Within base mark records (n + 1)) (fun _ => Within base mark records (n + 1))
      (fun _ => Within base mark records (n + 1)) := by
    have hset : forall s, Within base mark records (n + 1) s ∧ file.1 ∈ s.written ∧
        Path.out file.1 ∈ s.tracked -> s.out.opens file.1 false = true -> forall part,
        Within base mark records (n + 1) { s with out := s.out.write file.1 part } := by
      rintro s ⟨hs, hwritten, htracked⟩ hopens part
      exact hs.setOut (hs.changes.write ⟨Or.inl hwritten, htracked⟩ (hbase.clear_data hfile)
        hopens part)
    exact holds_writeSynced _ hset (fun s hs hopens => hset s hs hopens _) hset
      (fun s hs => hs.1)
  refine hwrite.bind (fun _ => ?_)
  have hkeep : forall s, Within base mark records (n + 1) s -> Within base mark records (n + 1)
      { s with manifest := { s.manifest with
        files := s.manifest.files.insert file.1 (fileHash sha256Hex file.2) } } :=
    fun s hs => hs.congr rfl rfl rfl
  exact Effect.holds_modify hkeep hkeep

theorem costs_publishAll (hbase : Ready base) {files : List (String × Bytes)}
    (hfiles : AreData files) :
    Costs base mark records 5 (publishAll sha256Hex env files) := by
  refine costs_replayed.quiet_bind (fun _ => ?_)
  have heach : Costs base mark records 5 (Effect.each (publish sha256Hex env) files) := by
    apply (Costs.each files (fun file hfile => costs_publish hbase (hfiles.mem hfile))).mono
    rw [Nat.mul_one]
    exact hfiles.length_le
  refine heach.bind_quiet (fun _ => ?_)
  exact costs_modify (fun _ => rfl) (fun _ => rfl) (fun _ => rfl)

theorem costs_checkAndPublish (hbase : Ready base) (raw : RawSet)
    {files : List (String × Bytes)} (hfiles : AreData files) :
    Costs base mark records 6 (checkAndPublish sha256Hex env raw files) := by
  refine Costs.quiet_bind ?_ (fun _ => ?_)
  · exact costs_modify (fun _ => rfl) (fun _ => rfl) (fun _ => rfl)
  · change Costs base mark records (1 + 5) _
    refine (costs_leakCheck raw files).bind (fun _ => ?_)
    apply costs_ite
    · exact (costs_pure _).mono (Nat.zero_le _)
    · exact costs_publishAll hbase hfiles

theorem costs_stageAndCheck (hbase : Ready base) :
    Costs base mark records 11 (stageAndCheck sha256Hex env) := by
  change Costs base mark records (5 + 6) _
  refine costs_stageFiles.bind_of_yields yields_stageFiles ?_
  intro staged hfiles
  refine (costs_validateStaged _).quiet_bind (fun _ => ?_)
  apply costs_ite
  · exact costs_checkAndPublish hbase staged.1 hfiles
  · exact (costs_fail _ _).mono (Nat.zero_le _)

theorem costs_makeScratch : Costs base mark records 1 (makeScratch env) := by
  refine (costs_throwIf _ _).quiet_bind (fun _ => ?_)
  refine Costs.quiet_bind ?_ (fun _ => costs_trackForCleanup .scratchDir trivial)
  exact costs_modify (fun _ => rfl) (fun _ => rfl) (fun _ => rfl)

theorem costs_withScratch {m : M PUnit} {k : Nat} (hm : Costs base mark records k m) :
    Costs base mark records (1 + k) (withScratch env m) := by
  refine costs_makeScratch.bind (fun _ => ?_)
  intro n hroom
  have hdrop : forall s, Within base mark records (n + k) s ->
      Within base mark records (n + k) { s with scratch := none } :=
    fun s hs => hs.congr rfl rfl rfl
  exact (hm n hroom).ensure (fun _ s hs => ⟨hdrop s hs, hdrop s hs⟩)
    (fun _ s hs => ⟨hdrop s hs, hdrop s hs⟩)

/-- Before its record, a run tracks at most twelve paths. -/
theorem costs_staging (sha256Hex : Bytes -> String) (env : Env) (mark : List Path)
    (records : List String) (hbase : Ready base) :
    Costs base mark records 12
      (Effect.handle (withScratch env (stageAndCheck sha256Hex env)) failWith) :=
  (costs_withScratch (costs_stageAndCheck hbase)).handle_quiet costs_failWith

end Staging

end Capture
end Ostia

import Ostia.Capture.Verdict

/-!
# Preparing the output directory

An output directory is taken when it is new, empty, or holds an earlier capture, which is
then removed.  Anything else is refused and left as it is.
-/

namespace Ostia
namespace Capture

open Foundation

/-- Under the reserved names, only directories resist removal. -/
def Removable (out : Out) : Prop :=
  forall name, reserved name -> forall e, out.entry name = some e -> e.stuck = true ->
    e.content = .tree

/-- The output is not taken. -/
def Refuses (env : Env) (out : Out) : Prop :=
  match out with
  | .absent => env.createFails = true
  | .other => True
  | .directory files => files.entries ≠ [] ∧ previous env out = .notObject

/-- A state after the output was taken: an earlier capture is gone, the rest is there. -/
structure Prepared (s b : Run) : Prop where
  ready : Ready b.out
  other : forall name, ¬ reserved name -> b.out.entry name = s.out.entry name
  scratch : b.scratch = s.scratch
  tracked : b.tracked = s.tracked
  manifest : b.manifest = s.manifest
  written : b.written = s.written
  leakOrSchema : b.leakOrSchema = s.leakOrSchema
  otherFailure : b.otherFailure = s.otherFailure
  isPartial : b.isPartial = s.isPartial

/-- The states while an earlier capture is removed: the names in a list are gone. -/
structure Removing (s : Run) (done : List String) (b : Run) : Prop where
  directory : b.out.IsDirectory
  entry : forall name, b.out.entry name =
    if name ∈ done then (s.out.entry name).filter Entry.stuck else s.out.entry name
  rest : b = { s with out := b.out }

section Prepare

variable {env : Env} {s : Run}

theorem Removing.remove {done : List String} {b : Run} (h : Removing s done b) (name : String) :
    Removing s (done ++ [name]) { b with out := b.out.remove name } := by
  refine ⟨Out.isDirectory_remove h.directory, ?_, ?_⟩
  · intro other
    change (b.out.remove name).entry other = _
    rw [Out.entry_remove]
    by_cases heq : other = name
    · rw [if_pos heq, ← heq, h.entry, if_pos (List.mem_append_right _ (heq ▸ List.mem_cons_self))]
      split_ifs
      · cases s.out.entry other with
        | none => rfl
        | some e =>
            cases hstuck : e.stuck with
            | true => rw [Option.filter_some, if_pos hstuck, Option.filter_some, if_pos hstuck]
            | false =>
                rw [Option.filter_some, hstuck]
                rfl
      · rfl
    · have hmem : other ∈ done ++ [name] <-> other ∈ done := by
        rw [List.mem_append, List.mem_singleton]
        exact or_iff_left heq
      rw [if_neg heq, h.entry]
      simp only [hmem]
  · conv_lhs => rw [h.rest]

theorem holds_removing {R : Exn -> Run -> Prop} {I : Run -> Prop} (done names : List String)
    (hI : forall done b, Removing s done b -> I b) :
    (Effect.each removeFile names).Holds (Removing s done) I
      (fun _ => Removing s (done ++ names)) R := by
  refine Effect.holds_each (J := fun done => Removing s done) names ?_ done
  intro done name _
  exact Effect.holds_modify (fun b hb => hI _ _ (hb.remove name)) (fun b hb => hb.remove name)

/-- A fresh directory is ready. -/
theorem ready_empty {files : Files} (h : files.entries = []) : Ready (.directory files) := by
  have hnone : forall name, (Out.directory files).entry name = none := by
    intro name
    change OrdMap.lookup name files.entries = none
    rw [h]
    rfl
  exact ⟨trivial, fun name _ => Or.inl (hnone name), hnone _⟩

/-- The names in the order in which an earlier capture is removed. -/
def removedNames : List String :=
  kDataFiles ++ ["manifest.json", "manifest.json.tmp", "diagnostics.txt"]

theorem mem_removedNames {name : String} : name ∈ removedNames <-> reserved name := by
  unfold removedNames reserved kRecordFiles
  rw [List.mem_append]
  simp only [List.mem_cons, List.not_mem_nil, or_false]
  tauto

theorem manifest_of_object (h : previous env s.out = .object) :
    exists e, s.out.entry "manifest.json" = some e ∧ e.content ≠ .tree := by
  unfold previous at h
  split_ifs at h
  unfold Out.read? at h
  split at h
  case h_2 => cases h
  case h_1 text hread =>
    split at hread
    case h_1 bytes stuck hentry => exact ⟨_, hentry, by simp⟩
    case h_2 target stuck hentry => exact ⟨_, hentry, by simp⟩
    case h_3 => cases hread

/-- After the removal every reserved name is free. -/
theorem Removing.prepared {b : Run} (h : Removing s removedNames b)
    (hout : Removable s.out) (hobject : previous env s.out = .object) : Prepared s b := by
  have hentry : forall name, reserved name ->
      b.out.entry name = (s.out.entry name).filter Entry.stuck := by
    intro name hname
    rw [h.entry, if_pos (mem_removedNames.mpr hname)]
  have hrest := h.rest
  refine ⟨⟨h.directory, ?_, ?_⟩, ?_, ?_, ?_, ?_, ?_, ?_, ?_, ?_⟩
  · intro name hname
    unfold Out.Clear
    rw [hentry name hname]
    cases he : s.out.entry name with
    | none => exact Or.inl rfl
    | some e =>
        cases hstuck : e.stuck with
        | false =>
            rw [Option.filter_some, hstuck]
            exact Or.inl rfl
        | true =>
            rw [Option.filter_some, if_pos hstuck]
            have htree := hout name hname e he hstuck
            right
            cases e
            cases htree
            cases hstuck
            rfl
  · rcases manifest_of_object hobject with ⟨e, he, htree⟩
    rw [hentry _ (Or.inr (by decide)), he, Option.filter_some]
    rw [if_neg]
    intro hstuck
    exact htree (hout _ (Or.inr (by decide)) e he hstuck)
  · intro name hname
    rw [h.entry, if_neg (fun hmem => hname (mem_removedNames.mp hmem))]
  all_goals rw [hrest]

theorem Prepared.addLine {b : Run} (h : Prepared s b) (line : Bytes) :
    Prepared s { b with diag := b.diag ++ [line] } :=
  ⟨h.ready, h.other, h.scratch, h.tracked, h.manifest, h.written, h.leakOrSchema,
    h.otherFailure, h.isPartial⟩

/-- The output is taken and prepared, or refused and left alone. -/
theorem holds_prepareOut (env : Env) {I : Run -> Prop} (hout : Removable s.out)
    (hsame : forall b, b.out = s.out -> I b)
    (hremoving : forall done b, previous env s.out = .object -> Removing s done b -> I b)
    (hprepared : forall b, Prepared s b -> I b) :
    (prepareOut env).Holds (· = s) I
      (fun prepared b => prepared = true ∧ ¬ Refuses env s.out ∧ Prepared s b ∨
        prepared = false ∧ Refuses env s.out ∧ b.out = s.out)
      (fun e b => (e = .system -> Refuses env s.out) ∧ b.out = s.out) := by
  apply Effect.holds_get_bind
  rintro b rfl
  cases hb : b.out with
  | absent =>
      have hnew : Prepared b { b with out := .directory OrdMap.empty } := by
        refine ⟨ready_empty rfl, ?_, rfl, rfl, rfl, rfl, rfl, rfl, rfl⟩
        intro name _
        rw [hb]
        rfl
      refine Effect.holds_throwIf_bind ?_ (fun hcreate => ?_)
      · rintro c hcreate rfl
        exact ⟨fun _ => hcreate, hb⟩
      · refine Effect.Holds.bind (Q := fun _ c => Prepared b c) (Effect.holds_modify ?_ ?_)
          (fun _ => ?_)
        · rintro c rfl
          exact hprepared _ hnew
        · rintro c rfl
          exact hnew
        · apply Effect.holds_pure
          intro c hc
          refine Or.inl ⟨rfl, ?_, hc⟩
          intro hrefuse
          change env.createFails = true at hrefuse
          rw [hcreate] at hrefuse
          cases hrefuse
  | other =>
      refine Effect.Holds.bind (Q := fun _ c => c.out = b.out) (Effect.holds_modify ?_ ?_)
        (fun _ => ?_)
      · rintro c rfl
        exact hsame _ rfl
      · rintro c rfl
        rfl
      · apply Effect.holds_pure
        intro c hc
        exact Or.inr ⟨rfl, trivial, hc.trans hb⟩
  | directory files =>
      dsimp only
      split_ifs with hempty
      · apply Effect.holds_pure
        rintro c rfl
        have hnil : files.entries = [] := List.isEmpty_iff.mp hempty
        refine Or.inl ⟨rfl, fun hrefuse => hrefuse.1 hnil, ?_⟩
        refine ⟨?_, fun _ _ => rfl, rfl, rfl, rfl, rfl, rfl, rfl, rfl⟩
        rw [hb]
        exact ready_empty hnil
      · have hne : files.entries ≠ [] := fun hnil => hempty (List.isEmpty_iff.mpr hnil)
        cases hprevious : previous env (.directory files) with
        | throws =>
            apply Effect.holds_throw
            rintro c rfl
            refine ⟨?_, hb⟩
            intro hsystem
            cases hsystem
        | notObject =>
            refine Effect.Holds.bind (Q := fun _ c => c.out = b.out) (Effect.holds_modify ?_ ?_)
              (fun _ => ?_)
            · rintro c rfl
              exact hsame _ rfl
            · rintro c rfl
              rfl
            · apply Effect.holds_pure
              intro c hc
              exact Or.inr ⟨rfl, ⟨hne, hprevious⟩, hc.trans hb⟩
        | object =>
            rw [← hb] at hprevious
            have hstart : Removing b [] b := by
              refine ⟨?_, fun _ => rfl, rfl⟩
              rw [hb]
              trivial
            refine Effect.Holds.bind (Q := fun _ c => Prepared b c) ?_ (fun _ => ?_)
            · refine Effect.Holds.bind (Q := fun _ => Removing b kDataFiles) ?_ (fun _ => ?_)
              · refine (holds_removing [] _ (fun done c hc => hremoving done c hprevious hc)).weaken
                  ?_ (fun _ hc => hc) (fun _ _ hc => hc) (fun _ _ hc => hc)
                rintro c rfl
                exact hstart
              · refine (holds_removing _ _ (fun done c hc => hremoving done c hprevious hc)).bind
                  (fun _ => ?_)
                have hdone : forall c, Removing b removedNames c -> Prepared b c :=
                  fun c hc => hc.prepared hout hprevious
                exact Effect.holds_modify (fun c hc => hprepared _ ((hdone c hc).addLine _))
                  (fun c hc => (hdone c hc).addLine _)
            · apply Effect.holds_pure
              intro c hc
              refine Or.inl ⟨rfl, ?_, hc⟩
              rintro ⟨_, hrefuse⟩
              rw [← hb, hprevious] at hrefuse
              cases hrefuse

end Prepare

end Capture
end Ostia

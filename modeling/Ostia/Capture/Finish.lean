import Ostia.Capture.Record

/-!
# The end of a run

A run that failed takes its data files back before it writes its record.  When the record
cannot be written it is taken back too, and written once more as the record of a failure.
-/

namespace Ostia
namespace Capture

open Foundation

/-- A handler of failed file operations lets the other exceptions through. -/
theorem holds_handleSystem {A : Type} {m handler : M A} {P I : Run -> Prop}
    {Q : A -> Run -> Prop} {R R' : Exn -> Run -> Prop} (hm : m.Holds P I Q R)
    (hhandler : handler.Holds (R .system) I Q R') (hother : forall e s, R e s -> R' e s) :
    (handleSystem m handler).Holds P I Q R' := by
  refine hm.handle (fun e => ?_)
  cases e with
  | system => exact hhandler
  | abort code => exact Effect.holds_throw (hother _)
  | noScratch => exact Effect.holds_throw (hother _)
  | standard => exact Effect.holds_throw (hother _)
  | nonstandard => exact Effect.holds_throw (hother _)

section Clearing

variable {J : Run -> Prop} {R : Exn -> Run -> Prop}

/-- Removing names one by one brings back what was there before the run. -/
theorem holds_removeAll (base : Out) (names : List String)
    (hJ : forall b, J b -> forall name, name ∈ names -> Out.Changes base (fun _ => True) b.out ∧
      base.Clear name ∧ J { b with out := b.out.remove name }) :
    (Effect.each removeFile names).Holds J J
      (fun _ b => J b ∧ forall name, name ∈ names -> b.out.entry name = base.entry name) R := by
  have hloop : (Effect.each removeFile names).Holds
      (fun b => J b ∧ forall name, name ∈ ([] : List String) ->
        b.out.entry name = base.entry name) J
      (fun _ b => J b ∧ forall name, name ∈ [] ++ names ->
        b.out.entry name = base.entry name) R := by
    refine Effect.holds_each (J := fun done b => J b ∧ forall name, name ∈ done ->
      b.out.entry name = base.entry name) names ?_ []
    intro done name hname
    apply Effect.holds_modify
    · intro b hb
      exact (hJ b hb.1 name hname).2.2
    · intro b hb
      rcases hJ b hb.1 name hname with ⟨hchanges, hclear, hremoved⟩
      refine ⟨hremoved, ?_⟩
      intro other hother
      by_cases heq : other = name
      · rw [heq]
        exact hchanges.entry_remove_self hclear
      · change (b.out.remove name).entry other = _
        rw [Out.entry_remove, if_neg heq]
        rcases List.mem_append.mp hother with hother | hother
        · exact hb.2 other hother
        · exact absurd (List.mem_singleton.mp hother) heq
  refine hloop.weaken (fun b hb => ⟨hb, ?_⟩) (fun _ hb => hb) (fun _ _ hb => hb)
    (fun _ _ hb => hb)
  intro name hname
  cases hname

/-- The names that a run wrote are what they were, and its manifest is one of a failure. -/
def Withdrawn (base : Out) (b : Run) : Prop :=
  (forall name, name ∈ b.written -> b.out.entry name = base.entry name) ∧
    exists m : Manifest, b.manifest = m.failedForm

theorem holds_toFailedForm {base : Out} (hbase : Ready base)
    (hJ : forall b, J b -> Out.Changes base (fun _ => True) b.out ∧
      forall name, name ∈ b.written -> name ∈ kDataFiles)
    (hremove : forall b, J b -> forall name, name ∈ kDataFiles ->
      J { b with out := b.out.remove name })
    (hform : forall b, J b -> J { b with manifest := b.manifest.failedForm }) :
    toFailedForm.Holds J J (fun _ b => J b ∧ Withdrawn base b) R := by
  apply Effect.holds_get_bind
  intro s hs
  have hloop := holds_removeAll (R := R) (J := fun b => J b ∧ b.written = s.written) base
    s.written (by
    rintro b ⟨hb, hwritten⟩ name hname
    have hdata := (hJ s hs).2 name hname
    exact ⟨(hJ b hb).1, hbase.clear_data hdata, hremove b hb name hdata, hwritten⟩)
  refine Effect.Holds.bind (hloop.weaken ?_ (fun _ hb => hb.1) (fun _ _ hb => hb)
    (fun _ _ hb => hb)) (fun _ => ?_)
  · rintro b rfl
    exact ⟨hs, rfl⟩
  · apply Effect.holds_modify
    · rintro b ⟨⟨hb, _⟩, _⟩
      exact hform b hb
    · rintro b ⟨⟨hb, hwritten⟩, hgone⟩
      refine ⟨hform b hb, ?_, b.manifest, rfl⟩
      intro name hname
      change name ∈ b.written at hname
      rw [hwritten] at hname
      exact hgone name hname

end Clearing

/-!
## The form of the manifest
-/

/-- A later state of a run with the same diagnostics, names and failures. -/
structure Same (s b : Run) : Prop where
  diag : b.diag = s.diag
  written : b.written = s.written
  leakOrSchema : b.leakOrSchema = s.leakOrSchema
  otherFailure : b.otherFailure = s.otherFailure
  isPartial : b.isPartial = s.isPartial
  manifest : b.manifest.failedForm = s.manifest.failedForm

theorem Same.refl (s : Run) : Same s s := ⟨rfl, rfl, rfl, rfl, rfl, rfl⟩

/-- A run that is about to write its record, with the manifest of its exit code. -/
structure Formed (base : Out) (mark : List Path) (n code : Nat) (s b : Run) : Prop where
  within : Within base mark [] n b
  same : Same s b
  failed : code = 1 ∨ code = 3 -> Withdrawn base b
  succeeded : ¬ (code = 1 ∨ code = 3) -> b = { s with manifest := { s.manifest with
    status := if s.isPartial then .partialCapture else .complete } }

theorem record_not_data {name : String} (h : name ∈ kRecordFiles) : name ∉ kDataFiles := by
  revert name
  decide

section Form

variable {base : Out} {mark : List Path} {n code : Nat} {s b : Run}

theorem Within.own {records : List String} (h : Within base mark records n b) :
    Out.Changes base (fun _ => True) b.out := h.changes.mono (fun _ _ => trivial)

/-- Whatever a run changes is under a reserved name. -/
theorem Within.reserved (h : Within base mark kRecordFiles n b) :
    Out.Changes base reserved b.out := by
  refine h.changes.mono ?_
  intro name hname
  exact hname.1.imp (h.written name) id

theorem Within.entry_record (h : Within base mark [] n b) {name : String}
    (hname : name ∈ kRecordFiles) : b.out.entry name = base.entry name := by
  by_contra hne
  rcases (h.changes.owned name hne).1.1 with hwritten | hnil
  · exact record_not_data hname (h.written name hwritten)
  · cases hnil

theorem Within.manifest_none (h : Within base mark [] n b) (hbase : Ready base) :
    b.out.entry "manifest.json" = none :=
  (h.entry_record (by decide)).trans hbase.manifest

/-- After a failure every data name is what it was before the run. -/
theorem Within.retracted {records : List String} (h : Within base mark records n b)
    (hrecords : forall name, name ∈ records -> name ∈ kRecordFiles) (hb : Withdrawn base b)
    {name : String} (hname : name ∈ kDataFiles) : b.out.entry name = base.entry name := by
  by_contra hne
  rcases (h.changes.owned name hne).1.1 with hwritten | hrecord
  · exact hne (hb.1 name hwritten)
  · exact record_not_data (hrecords name hrecord) hname

/-- The states of a failing run while it takes its data files back. -/
theorem holds_setForm (code : Nat) (hbase : Ready base) {I : Run -> Prop} {R : Exn -> Run -> Prop}
    (hs : Within base mark [] n s) (hI : forall b, Within base mark [] n b -> I b) :
    (setForm code).Holds (· = s) I (fun _ => Formed base mark n code s) R := by
  -- `setForm` reads the partial flag of the state in which it runs.
  unfold setForm
  split_ifs with hcode
  · have hfailed := holds_toFailedForm (R := R)
      (J := fun b => Within base mark [] n b ∧ Same s b) hbase ?_ ?_ ?_
    · refine hfailed.weaken ?_ (fun b hb => hI b hb.1) ?_ (fun _ _ hb => hb)
      · rintro b rfl
        exact ⟨hs, Same.refl b⟩
      · rintro _ b ⟨⟨hwithin, hsame⟩, hb⟩
        exact ⟨hwithin, hsame, fun _ => hb, fun hnot => absurd hcode hnot⟩
    · rintro b ⟨hwithin, _⟩
      exact ⟨hwithin.own, hwithin.written⟩
    · rintro b ⟨hwithin, hsame⟩ name hname
      exact ⟨hwithin.setOut (hwithin.changes.remove (hbase.clear_data hname)),
        hsame.diag, hsame.written, hsame.leakOrSchema, hsame.otherFailure, hsame.isPartial,
        hsame.manifest⟩
    · rintro b ⟨hwithin, hsame⟩
      exact ⟨hwithin.congr rfl rfl rfl, hsame.diag, hsame.written, hsame.leakOrSchema,
        hsame.otherFailure, hsame.isPartial, hsame.manifest⟩
  · apply Effect.holds_modify
    · rintro b rfl
      exact hI _ (hs.congr rfl rfl rfl)
    · rintro b rfl
      exact ⟨hs.congr rfl rfl rfl, ⟨rfl, rfl, rfl, rfl, rfl, rfl⟩, fun h => absurd h hcode,
        fun _ => rfl⟩

end Form

/-!
## The record of a failed record
-/

/-- What a reader of the output can see of the manifest of a run. -/
inductive Sight (printer : Printer) (env : Env) (s b : Run) : Prop
  | absent (h : b.out.entry "manifest.json" = none)
  | failed (m : Manifest)
      (h : b.out.entry "manifest.json" =
        some ⟨.file (manifestText printer m.failedForm), false⟩)
  | whole (h : Shows printer s b) (beside : Beside s b)
  | torn (h : Shows printer s b) (sync : env.syncFails (.after false) = true)

/-- The manifest whose directory could not be synced is there, or no manifest is. -/
def Fading (printer : Printer) (env : Env) (s b : Run) : Prop :=
  b.out.entry "manifest.json" = none ∨
    env.syncFails (.after false) = true ∧ Shows printer s b

/-- A run that takes back its record, with the lines and the manifest of the second one. -/
structure Taking (base : Out) (mark : List Path) (n : Nat) (printer : Printer) (env : Env)
    (s : Run) (lines : List Bytes) (b : Run) : Prop where
  recording : Recording base mark n b
  fading : Fading printer env s b
  lines : b.diag = lines
  leakOrSchema : b.leakOrSchema = s.leakOrSchema
  otherFailure : b.otherFailure = true
  isPartial : b.isPartial = s.isPartial
  manifest : b.manifest.failedForm = s.manifest.addWriteFailed.failedForm

section Again

variable {base : Out} {mark : List Path} {n code : Nat} {s b : Run} {printer : Printer}
  {env : Env} {lines : List Bytes}

theorem Fading.sight (h : Fading printer env s b) : Sight printer env s b := by
  rcases h with h | ⟨hsync, h⟩
  · exact .absent h
  · exact .torn h hsync

theorem Taking.remove (h : Taking base mark n printer env s lines b) (hbase : Ready base)
    {name : String} (hname : reserved name) :
    Taking base mark n printer env s lines { b with out := b.out.remove name } := by
  refine ⟨h.recording.remove hbase hname, ?_, h.lines, h.leakOrSchema, h.otherFailure,
    h.isPartial, h.manifest⟩
  by_cases heq : name = "manifest.json"
  · left
    rw [heq]
    exact (h.recording.within.changes.entry_remove_self (hbase.clear_record (by decide))).trans
      hbase.manifest
  · have hentry : (b.out.remove name).entry "manifest.json" = b.out.entry "manifest.json" := by
      rw [Out.entry_remove, if_neg (Ne.symm heq)]
    rcases h.fading with hnone | ⟨hsync, hshows⟩
    · exact Or.inl (hentry.trans hnone)
    · exact Or.inr ⟨hsync, hentry.trans hshows⟩

/-- The record of a failure that is written after the first one failed, or none. -/
structure Again (base : Out) (mark : List Path) (n : Nat) (printer : Printer) (s : Run)
    (lines : List Bytes) (code : Nat) (b : Run) : Prop where
  within : Within base mark kRecordFiles n b
  retracted : forall name, name ∈ kDataFiles -> b.out.entry name = base.entry name
  exit : code = exitFor s.leakOrSchema true s.isPartial
  topologyId : b.manifest.topologyId = none
  record : (exists d : Run, d.manifest = s.manifest.addWriteFailed.failedForm ∧ d.diag = lines ∧
      Recorded printer d code b) ∨
    forall name, name ∈ kRecordFiles -> b.out.entry name = base.entry name

theorem holds_removeRecord {J : Run -> Prop} {R : Exn -> Run -> Prop} (hbase : Ready base)
    (hJ : forall b, J b -> Out.Changes base (fun _ => True) b.out)
    (hremove : forall b, J b -> forall name, name ∈ kRecordFiles ->
      J { b with out := b.out.remove name }) :
    removeRecord.Holds J J (fun _ b => J b ∧ forall name, name ∈ kRecordFiles ->
      b.out.entry name = base.entry name) R := by
  have hperm : forall name, name ∈ kRecordFiles <->
      name ∈ ["diagnostics.txt", "manifest.json", "manifest.json.tmp"] := by
    intro name
    unfold kRecordFiles
    simp only [List.mem_cons, List.not_mem_nil, or_false]
    rw [or_comm (a := name = "manifest.json.tmp")]
  refine (holds_removeAll base _ ?_).weaken (fun _ hb => hb) (fun _ hb => hb) ?_ (fun _ _ hb => hb)
  · intro b hb name hname
    have hrecord := (hperm name).mpr hname
    exact ⟨hJ b hb, hbase.clear_record hrecord, hremove b hb name hrecord⟩
  · rintro _ b ⟨hb, hgone⟩
    exact ⟨hb, fun name hname => hgone name ((hperm name).mp hname)⟩

/-- A run that took back its files and its record. -/
structure Taken (base : Out) (mark : List Path) (n : Nat) (printer : Printer) (env : Env)
    (s : Run) (lines : List Bytes) (d : Run) : Prop where
  taking : Taking base mark n printer env s lines d
  withdrawn : Withdrawn base d
  records : forall name, name ∈ kRecordFiles -> d.out.entry name = base.entry name

theorem Taken.manifest_none (h : Taken base mark n printer env s lines b)
    (hbase : Ready base) : b.out.entry "manifest.json" = none :=
  (h.records _ (by decide)).trans hbase.manifest

theorem Taken.retracted (h : Taken base mark n printer env s lines b) {name : String}
    (hname : name ∈ kDataFiles) : b.out.entry name = base.entry name :=
  h.taking.recording.within.retracted (fun _ hname => hname) h.withdrawn hname

theorem Taken.manifest (h : Taken base mark n printer env s lines b) :
    b.manifest = s.manifest.addWriteFailed.failedForm := by
  rcases h.withdrawn.2 with ⟨m, hm⟩
  rw [← h.taking.manifest, hm]
  rfl

theorem Taken.unrecorded (h : Taken base mark n printer env s lines b)
    (hbase : Ready base) : Unrecorded base mark n [] b := by
  refine ⟨h.taking.recording.within, h.manifest_none hbase, ?_, ?_⟩
  · intro name hname
    cases hname
  · intro name hname
    cases hname

theorem taking_toFailedForm {R : Exn -> Run -> Prop} (hbase : Ready base) :
    toFailedForm.Holds (Taking base mark n printer env s lines)
      (Taking base mark n printer env s lines)
      (fun _ b => Taking base mark n printer env s lines b ∧ Withdrawn base b) R := by
  refine holds_toFailedForm hbase ?_ ?_ ?_
  · intro b hb
    exact ⟨hb.recording.within.own, hb.recording.within.written⟩
  · intro b hb name hname
    exact hb.remove hbase (Or.inl hname)
  · intro b hb
    exact ⟨hb.recording.congr rfl rfl rfl, hb.fading, hb.lines, hb.leakOrSchema,
      hb.otherFailure, hb.isPartial, hb.manifest⟩

theorem taking_removeRecord {R : Exn -> Run -> Prop} (hbase : Ready base) :
    removeRecord.Holds
      (fun b => Taking base mark n printer env s lines b ∧ Withdrawn base b)
      (Taking base mark n printer env s lines)
      (fun _ => Taken base mark n printer env s lines) R := by
  refine (holds_removeRecord (J := fun b =>
    Taking base mark n printer env s lines b ∧ Withdrawn base b) hbase ?_ ?_).weaken
    (fun _ hb => hb) (fun _ hb => hb.1) ?_ (fun _ _ hb => hb)
  · rintro b ⟨hb, _⟩
    exact hb.recording.within.own
  · rintro b ⟨hb, hgone, hform⟩ name hname
    refine ⟨hb.remove hbase (Or.inr hname), ?_, hform⟩
    intro other hother
    have hne : other ≠ name := by
      rintro rfl
      exact record_not_data hname (hb.recording.within.written other hother)
    change (b.out.remove name).entry other = _
    rw [Out.entry_remove, if_neg hne]
    exact hgone other hother
  · rintro _ b ⟨⟨hb, hgone⟩, hrecords⟩
    exact ⟨hb, hgone, hrecords⟩

/-- The second record: of a failure, or none at all. -/
theorem holds_secondRecord {d : Run} (hbase : Ready base)
    (hroom : mark.length + (n + 3) ≤ kMaxTracked)
    (hd : Taken base mark n printer env s lines d)
    (hexit : code = exitFor s.leakOrSchema true s.isPartial) :
    (handleSystem (writeRecord printer env code true) removeRecord).Holds (· = d)
      (fun b => Guarded base mark (n + 3) b ∧ Sight printer env s b)
      (fun _ => Again base mark (n + 3) printer s lines code)
      (fun _ b => Sight printer env s b ∧ Out.Changes base reserved b.out ∧
        mark <+: b.tracked) := by
  have hsight : forall b, b.out.entry "manifest.json" = none ∨ Shows printer d b ->
      Sight printer env s b := by
    intro b hb
    rcases hb with hb | hb
    · exact .absent hb
    · unfold Shows at hb
      rw [hd.manifest] at hb
      exact .failed _ hb
  have hretracted : forall b, Beside d b -> forall name, name ∈ kDataFiles ->
      b.out.entry name = base.entry name := by
    intro b hb name hname
    rw [hb.other name (fun hrecord => record_not_data hrecord hname)]
    exact hd.retracted hname
  have hid : forall b, Beside d b -> b.manifest.topologyId = none := by
    intro b hb
    rw [hb.manifest, hd.manifest]
    rfl
  have hwrite : (writeRecord printer env code true).Holds (· = d)
      (fun b => Guarded base mark (n + 3) b ∧ Sight printer env s b)
      (fun _ => Again base mark (n + 3) printer s lines code)
      (fun _ b => Recording base mark (n + 3) b ∧ Unfinished printer env true d code b) := by
    refine (holds_recording printer env code true hbase hroom (hd.unrecorded hbase)).weaken
      (fun _ hb => hb) (fun b hb => ⟨hb.1, hsight b hb.2.2⟩) ?_ (fun _ _ hb => hb)
    rintro _ b ⟨hb, hrecorded⟩
    exact ⟨hb.within, hretracted b hrecorded.beside, hexit, hid b hrecorded.beside,
      Or.inl ⟨d, hd.manifest, hd.taking.lines, hrecorded⟩⟩
  refine holds_handleSystem hwrite ?_ ?_
  · refine (holds_removeRecord (J := fun b => Recording base mark (n + 3) b ∧ Beside d b ∧
      (b.out.entry "manifest.json" = none ∨ Shows printer d b)) hbase ?_ ?_).weaken
      ?_ ?_ ?_ (fun _ _ hb => hb)
    · rintro b ⟨hb, _⟩
      exact hb.within.own
    · rintro b ⟨hb, hbeside, hmanifest⟩ name hname
      refine ⟨hb.remove hbase (Or.inr hname), hbeside.setOut ?_, ?_⟩
      · intro other hother
        have hne : other ≠ name := by
          rintro rfl
          exact hother hname
        rw [Out.entry_remove, if_neg hne]
      · by_cases heq : name = "manifest.json"
        · left
          rw [heq]
          exact (hb.within.changes.entry_remove_self (hbase.clear_record (by decide))).trans
            hbase.manifest
        · unfold Shows
          rw [Out.entry_remove, if_neg (Ne.symm heq)]
          exact hmanifest
    · rintro b ⟨hb, hunfinished⟩
      exact ⟨hb, hunfinished.beside, hunfinished.manifest.imp id And.right⟩
    · rintro b ⟨hb, _, hmanifest⟩
      exact ⟨hb.guarded, hsight b hmanifest⟩
    · rintro _ b ⟨⟨hb, hbeside, _⟩, hrecords⟩
      exact ⟨hb.within, hretracted b hbeside, hexit, hid b hbeside, Or.inr hrecords⟩
  · rintro e b ⟨hb, hunfinished⟩
    exact ⟨hsight b (hunfinished.manifest.imp id And.right), hb.within.reserved,
      hb.within.marked⟩

theorem holds_recordAgain (printer : Printer) (env : Env) (hbase : Ready base)
    (hroom : mark.length + (n + 3) ≤ kMaxTracked) :
    (recordAgain printer env).Holds
      (fun c => Recording base mark n c ∧ Unfinished printer env false s code c)
      (fun b => Guarded base mark (n + 3) b ∧ Sight printer env s b)
      (Again base mark (n + 3) printer s (s.diag ++
        [ascii ("capture: exit " ++ toString code)] ++
        [ascii "capture: diagnostics.txt or the manifest could not be written"]))
      (fun _ b => Sight printer env s b ∧ Out.Changes base reserved b.out ∧
        mark <+: b.tracked) := by
  apply Effect.Holds.of_pre
  rintro c ⟨hc, hunfinished⟩
  let lines := s.diag ++ [ascii ("capture: exit " ++ toString code)] ++
    [ascii "capture: diagnostics.txt or the manifest could not be written"]
  let c1 : Run := { c with diag := c.diag ++
    [ascii "capture: diagnostics.txt or the manifest could not be written"] }
  let c2 : Run := { c1 with manifest := c1.manifest.addWriteFailed, otherFailure := true }
  have hfading : Fading printer env s c := hunfinished.manifest
  have htaking : Taking base mark n printer env s lines c2 := by
    have hbeside := hunfinished.beside
    refine ⟨hc.congr rfl rfl rfl, hfading, ?_, hbeside.leakOrSchema, rfl, hbeside.isPartial, ?_⟩
    · change c.diag ++ _ = _
      rw [hunfinished.lines]
    · change c.manifest.addWriteFailed.failedForm = _
      rw [hbeside.manifest]
  have hI : forall b, Taking base mark n printer env s lines b ->
      Guarded base mark (n + 3) b ∧ Sight printer env s b :=
    fun b hb => ⟨hb.recording.guarded.mono (Nat.le_add_right n 3), hb.fading.sight⟩
  refine Effect.Holds.bind (Q := fun _ b => b = c1) (Effect.holds_modify ?_ ?_) (fun _ => ?_)
  · intro b hb
    rw [hb]
    have hkeep : Recording base mark n c1 := hc.congr rfl rfl rfl
    have hsame : Fading printer env s c1 := hfading
    exact ⟨hkeep.guarded.mono (Nat.le_add_right n 3), hsame.sight⟩
  · rintro b rfl
    rfl
  refine Effect.Holds.bind (Q := fun _ b => b = c2) (Effect.holds_modify ?_ ?_) (fun _ => ?_)
  · rintro b rfl
    exact hI c2 htaking
  · rintro b rfl
    rfl
  apply Effect.holds_get_bind
  rintro b rfl
  have hexit : exitFor c2.leakOrSchema c2.otherFailure c2.isPartial =
      exitFor s.leakOrSchema true s.isPartial := by
    rw [htaking.leakOrSchema, htaking.otherFailure, htaking.isPartial]
  refine Effect.Holds.bind (Q := fun _ b => Taking base mark n printer env s lines b ∧
    Withdrawn base b) ((taking_toFailedForm hbase).weaken ?_ hI (fun _ _ hb => hb)
    (fun _ _ hb => hb)) (fun _ => ?_)
  · rintro b rfl
    exact htaking
  refine Effect.Holds.bind (Q := fun _ => Taken base mark n printer env s lines)
    ((taking_removeRecord hbase).weaken (fun _ hb => hb) hI (fun _ _ hb => hb)
    (fun _ _ hb => hb)) (fun _ => ?_)
  apply Effect.Holds.of_pre
  intro d hd
  refine (holds_secondRecord hbase hroom hd hexit).bind (fun _ => ?_)
  exact Effect.holds_pure (fun _ hb => hb)

end Again

/-!
## The whole end
-/

/-- The manifest that can be seen at the end of a run in a state s. -/
def Seen (base : Out) (mark : List Path) (n : Nat) (printer : Printer) (env : Env)
    (code : Nat) (s b : Run) : Prop :=
  b.out.entry "manifest.json" = none ∨
    exists formed, Formed base mark n code s formed ∧ Sight printer env formed b

/-- A run whose record is complete and whose tracked paths are released. -/
structure Released (base : Out) (mark : List Path) (n : Nat) (printer : Printer)
    (code : Nat) (s formed c b : Run) : Prop where
  form : Formed base mark n code s formed
  recording : Recording base mark (n + 3) c
  recorded : Recorded printer formed code c
  released : b = { c with tracked := mark }

/-- A moment of the end of a run. -/
inductive Moment (base : Out) (mark : List Path) (n : Nat) (printer : Printer) (env : Env)
    (code : Nat) (s b : Run) : Prop
  | guarded (h : Guarded base mark (n + 6) b) (seen : Seen base mark n printer env code s b)
  | released (formed c : Run) (h : Released base mark n printer code s formed c b)

/-- How a run ends: with its record, or with the record of a failed record. -/
inductive Finished (base : Out) (mark : List Path) (n : Nat) (printer : Printer)
    (code : Nat) (s : Run) (outcome : CaptureOutcome) (b : Run) : Prop
  | first (formed c : Run) (h : Released base mark n printer code s formed c b)
      (outcome_eq : outcome = ⟨code, formed.manifest.topologyId⟩)
  | again (formed : Run) (h : Formed base mark n code s formed)
      (record : Again base mark (n + 6) printer formed (formed.diag ++
        [ascii ("capture: exit " ++ toString code)] ++
        [ascii "capture: diagnostics.txt or the manifest could not be written"])
        outcome.exitCode b)
      (topologyId : outcome.topologyId = none)

section Finish

variable {base : Out} {mark : List Path} {n code : Nat} {s b : Run} {printer : Printer}
  {env : Env}

theorem Formed.unrecorded {formed : Run} (h : Formed base mark n code s formed)
    (hbase : Ready base) : Unrecorded base mark n [] formed := by
  refine ⟨h.within.records_mono ?_, h.within.manifest_none hbase, ?_, ?_⟩
  · intro name hname
    cases hname
  · intro name hname
    cases hname
  · intro name hname
    cases hname

theorem Recording.take_tracked {m : Nat} (h : Recording base mark m b) :
    b.tracked.take mark.length = mark := List.prefix_iff_eq_take.mp h.within.marked |>.symm

/-- The first record and the release of what was tracked. -/
theorem holds_firstRecord {formed : Run} (hbase : Ready base)
    (hroom : mark.length + (n + 6) ≤ kMaxTracked)
    (hformed : Formed base mark n code s formed) :
    Effect.Holds (do
        writeRecord printer env code false
        release mark.length
        pure code) (· = formed) (Moment base mark n printer env code s)
      (fun result b => result = code ∧
        exists c, Released base mark n printer code s formed c b)
      (fun _ b => Recording base mark (n + 3) b ∧
        Unfinished printer env false formed code b) := by
  have hroom' : mark.length + (n + 3) ≤ kMaxTracked :=
    (Nat.add_le_add_left (Nat.add_le_add_left (by decide) n) _).trans hroom
  refine Effect.Holds.bind (Q := fun _ b => Recording base mark (n + 3) b ∧
    Recorded printer formed code b)
    ((holds_recording printer env code false hbase hroom'
      (hformed.unrecorded hbase)).weaken (fun _ hb => hb) ?_ (fun _ _ hb => hb)
      (fun _ _ hb => hb)) (fun _ => ?_)
  · rintro b ⟨hguarded, hbeside, hmanifest⟩
    refine .guarded (hguarded.mono (Nat.add_le_add_left (by decide) n)) ?_
    rcases hmanifest with hnone | hshows
    · exact Or.inl hnone
    · exact Or.inr ⟨formed, hformed, .whole hshows hbeside⟩
  have hrelease : forall c, Recording base mark (n + 3) c ∧ Recorded printer formed code c ->
      Released base mark n printer code s formed c
        { c with tracked := c.tracked.take mark.length } := by
    rintro c ⟨hc, hrecorded⟩
    refine ⟨hformed, hc, hrecorded, ?_⟩
    rw [hc.take_tracked]
  refine Effect.Holds.bind (Q := fun _ b => exists c,
    Released base mark n printer code s formed c b) (Effect.holds_modify ?_ ?_) (fun _ => ?_)
  · intro c hc
    exact .released formed c (hrelease c hc)
  · intro c hc
    exact ⟨c, hrelease c hc⟩
  · exact Effect.holds_pure (fun b hb => ⟨rfl, hb⟩)

/-- The moments of the end of a run, and how it ends. -/
theorem holds_finish (printer : Printer) (env : Env) (hbase : Ready base)
    (hroom : mark.length + (n + 6) ≤ kMaxTracked)
    (hs : Within base mark [] n s) :
    (finish printer env mark.length).Holds (· = s)
      (Moment base mark n printer env
        (exitFor s.leakOrSchema s.otherFailure s.isPartial) s)
      (Finished base mark n printer
        (exitFor s.leakOrSchema s.otherFailure s.isPartial) s)
      (fun _ b => Seen base mark n printer env
        (exitFor s.leakOrSchema s.otherFailure s.isPartial) s b ∧
        Out.Changes base reserved b.out ∧ mark <+: b.tracked) := by
  apply Effect.holds_get_bind
  rintro b rfl
  generalize hcode : exitFor b.leakOrSchema b.otherFailure b.isPartial = code
  refine (holds_setForm code hbase hs ?_).bind (fun _ => ?_)
  · intro c hc
    refine .guarded ⟨(hc.records_mono ?_).mono (Nat.le_add_right n 6), ?_⟩ ?_
    · intro name hname
      cases hname
    · exact Or.inl (hc.manifest_none hbase)
    · exact Or.inl (hc.manifest_none hbase)
  apply Effect.Holds.of_pre
  intro formed hformed
  refine Effect.Holds.bind (Q := fun result c => (result = code ∧
      exists d, Released base mark n printer code b formed d c) ∨
      Again base mark (n + 6) printer formed (formed.diag ++
        [ascii ("capture: exit " ++ toString code)] ++
        [ascii "capture: diagnostics.txt or the manifest could not be written"]) result c)
    (holds_handleSystem ((holds_firstRecord hbase hroom hformed).weaken (fun _ hb => hb)
      (fun _ hb => hb) (fun _ _ hb => Or.inl hb) (fun _ _ hb => hb))
      ((holds_recordAgain printer env hbase ?_).weaken (fun _ hb => hb) ?_
        (fun _ _ hb => Or.inr hb) ?_) ?_)
    (fun result => ?_)
  · exact hroom
  · rintro c ⟨hguarded, hsight⟩
    exact .guarded hguarded (Or.inr ⟨formed, hformed, hsight⟩)
  · rintro _ c ⟨hsight, hchanges⟩
    exact ⟨Or.inr ⟨formed, hformed, hsight⟩, hchanges⟩
  · rintro e c ⟨hc, hunfinished⟩
    refine ⟨?_, hc.within.reserved, hc.within.marked⟩
    rcases hunfinished.manifest with hnone | ⟨hsync, hshows⟩
    · exact Or.inl hnone
    · exact Or.inr ⟨formed, hformed, .torn hshows hsync⟩
  · apply Effect.holds_get_bind
    intro c hc
    apply Effect.holds_pure
    rintro d rfl
    rcases hc with ⟨rfl, e, he⟩ | hagain
    · refine .first formed e he ?_
      have hmanifest : d.manifest = formed.manifest := by
        rw [he.released]
        exact he.recorded.beside.manifest
      rw [hmanifest]
    · exact .again formed hformed hagain hagain.topologyId

/-- The record of a run could not be written. -/
def RecordFails (printer : Printer) (env : Env) (s : Run) : Prop :=
  let code := exitFor s.leakOrSchema s.otherFailure s.isPartial
  (writeRecord printer env code false (setForm code s).state).result = .error .system

/-- The exit code of a run that returns is the one of its failures, a failed record among them. -/
theorem finish_exit (hbase : Ready base) (hroom : mark.length + (n + 6) ≤ kMaxTracked)
    (hs : Within base mark [] n s) {outcome : CaptureOutcome}
    (h : (finish printer env mark.length s).result = .ok outcome) :
    RecordFails printer env s ∧
        outcome.exitCode = exitFor s.leakOrSchema true s.isPartial ∨
      ¬ RecordFails printer env s ∧
        outcome.exitCode = exitFor s.leakOrSchema s.otherFailure s.isPartial := by
  have hrun : (Effect.run (finish printer env mark.length) s).1 = .ok outcome := h
  unfold finish at hrun
  unfold RecordFails
  rw [Effect.run_bind_of_ok _ rfl] at hrun
  dsimp only [Effect.get] at hrun ⊢
  generalize hcode : exitFor s.leakOrSchema s.otherFailure s.isPartial = code at hrun ⊢
  rcases (holds_setForm code hbase hs (fun _ _ => trivial)).returns rfl with
    ⟨u, hset, hformed⟩
  rw [Effect.run_bind_of_ok _ hset] at hrun
  generalize (setForm code s).state = formed at hformed hrun ⊢
  have hroom' : mark.length + (n + 3) ≤ kMaxTracked :=
    (Nat.add_le_add_left (Nat.add_le_add_left (by decide) n) _).trans hroom
  have hfirst := (holds_recording printer env code false hbase hroom'
    (hformed.unrecorded hbase) formed rfl).2
  cases hwrite : (writeRecord printer env code false formed).result with
  | ok v =>
      right
      have hinner : Effect.run (handleSystem (do
          writeRecord printer env code false
          release mark.length
          pure code) (recordAgain printer env)) formed = (.ok code, _) :=
        (Effect.run_handle_of_ok _ (congrArg Prod.fst (Effect.run_bind_of_ok _ hwrite)))
      rw [Effect.run_bind_of_ok _ (congrArg Prod.fst hinner)] at hrun
      injection hrun with houtcome
      refine ⟨?_, ?_⟩
      · intro herror
        cases herror
      · rw [← houtcome]
  | error e =>
      rw [hwrite] at hfirst
      have hthrow : Effect.run (do
          writeRecord printer env code false
          release mark.length
          pure code) formed = (.error e, _) := Effect.run_bind_of_error _ hwrite
      have hstate := congrArg Prod.snd hthrow
      have hhandle : Effect.run (handleSystem (do
          writeRecord printer env code false
          release mark.length
          pure code) (recordAgain printer env)) formed = _ :=
        Effect.run_handle_of_error _ (congrArg Prod.fst hthrow)
      dsimp only [Effect.run] at hstate
      rw [hstate] at hhandle
      cases e with
      | system =>
          left
          refine ⟨rfl, ?_⟩
          have hagain := (holds_recordAgain printer env hbase hroom _ hfirst).2
          cases hresult : (recordAgain printer env
              (writeRecord printer env code false formed).state).result with
          | error e =>
              rw [Effect.run_bind_of_error _ ((congrArg Prod.fst hhandle).trans hresult)] at hrun
              cases hrun
          | ok exit =>
              rw [hresult] at hagain
              rw [Effect.run_bind_of_ok _ ((congrArg Prod.fst hhandle).trans hresult)] at hrun
              injection hrun with houtcome
              rw [← houtcome, ← hformed.same.leakOrSchema, ← hformed.same.isPartial]
              exact hagain.exit
      | _ =>
          rw [Effect.run_bind_of_error _ (congrArg Prod.fst hhandle)] at hrun
          cases hrun

end Finish

end Capture
end Ostia

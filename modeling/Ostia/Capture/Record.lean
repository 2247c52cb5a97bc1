import Ostia.Capture.Scope

/-!
# Writing the record of a run

The diagnostics and the manifest are written last, the manifest under a temporary name that
is renamed when it is complete.  These are the states in between and the ways it can end.
-/

namespace Ostia
namespace Capture

open Foundation

/-!
## Writing the manifest
-/

/-- An output while the manifest is written under its temporary name. -/
structure Temporary (base out o : Out) : Prop where
  directory : o.IsDirectory
  other : forall name, name ≠ "manifest.json.tmp" -> o.entry name = out.entry name
  temporary : o.entry "manifest.json.tmp" = base.entry "manifest.json.tmp" ∨
    Out.Owned base o "manifest.json.tmp"

/-- An output after the manifest was renamed into its place. -/
structure Installed (base out : Out) (text : Bytes) (o : Out) : Prop where
  directory : o.IsDirectory
  other : forall name, name ≠ "manifest.json.tmp" -> name ≠ "manifest.json" ->
    o.entry name = out.entry name
  temporary : o.entry "manifest.json.tmp" = base.entry "manifest.json.tmp"
  manifest : o.entry "manifest.json" = some ⟨.file text, false⟩

section Manifest

variable {base out o : Out} {names : String -> Prop}

theorem Temporary.changes (h : Temporary base out o) (hout : Out.Changes base names out)
    (hname : names "manifest.json.tmp") : Out.Changes base names o :=
  hout.update h.directory h.other (h.temporary.imp id (fun howned => ⟨hname, howned⟩))

theorem Installed.changes {text : Bytes} (h : Installed base out text o) (hbase : Ready base)
    (hout : Out.Changes base names out) (hname : names "manifest.json") :
    Out.Changes base names o := by
  refine ⟨h.directory, ?_⟩
  intro name hne
  by_cases hmanifest : name = "manifest.json"
  · rw [hmanifest]
    exact ⟨hname, hbase.manifest, text, h.manifest⟩
  · by_cases htemporary : name = "manifest.json.tmp"
    · rw [htemporary] at hne
      exact absurd h.temporary hne
    · have hother := h.other name htemporary hmanifest
      rw [hother] at hne
      rcases hout.owned name hne with ⟨hnames, hfree, bytes, hbytes⟩
      exact ⟨hnames, hfree, bytes, hother.trans hbytes⟩

theorem temporary_mem : "manifest.json.tmp" ∈ kRecordFiles := by decide

theorem Temporary.of_removed (hbase : Ready base) (hout : Out.Changes base names out) :
    Temporary base out (out.remove "manifest.json.tmp") ∧
      (out.remove "manifest.json.tmp").entry "manifest.json.tmp" =
        base.entry "manifest.json.tmp" := by
  have hentry := hout.entry_remove_self (hbase.clear_record temporary_mem)
  refine ⟨⟨Out.isDirectory_remove hout.directory, ?_, Or.inl hentry⟩, hentry⟩
  intro name hne
  rw [Out.entry_remove, if_neg hne]

/-- Up to the rename every state is temporary; the rename installs what was written. -/
theorem holds_installManifest (env : Env) (text : Bytes) (again : Bool) {s : Run}
    {I : Run -> Prop} (hbase : Ready base) (hchanges : Out.Changes base names s.out)
    (hname : names "manifest.json.tmp")
    (htemporary : forall o, Temporary base s.out o -> I { s with out := o })
    (hinstalled : forall o, Installed base s.out text o -> I { s with out := o }) :
    (installManifest env text again).Holds (· = s) I
      (fun _ b => exists o, b = { s with out := o } ∧ Installed base s.out text o)
      (fun e b => e = .system ∧ exists o, b = { s with out := o } ∧ Temporary base s.out o) := by
  have hclear := hbase.clear_record temporary_mem
  have hremove : (removeFile "manifest.json.tmp").Holds (· = s) I
      (fun _ b => b = { s with out := s.out.remove "manifest.json.tmp" })
      (fun e b => e = .system ∧ exists o, b = { s with out := o } ∧ Temporary base s.out o) := by
    apply Effect.holds_modify
    · rintro b rfl
      exact htemporary _ (Temporary.of_removed hbase hchanges).1
    · rintro b rfl
      rfl
  refine hremove.bind (fun _ => ?_)
  have hremoved := (hchanges.remove hclear : Out.Changes base names _)
  have hpart : forall part, (s.out.remove "manifest.json.tmp").opens "manifest.json.tmp" true ->
      Temporary base s.out ((s.out.remove "manifest.json.tmp").write "manifest.json.tmp" part) := by
    intro part hopens
    have hwrite := hremoved.write hname hclear hopens part
    refine ⟨hwrite.directory, ?_, ?_⟩
    · intro name hne
      rw [Out.entry_write part hremoved.directory, if_neg hne, Out.entry_remove, if_neg hne]
    · exact Or.inr ⟨(hremoved.free_of_opens hclear hopens).1, part,
        hremoved.entry_write_self hclear hopens part⟩
  refine Effect.Holds.bind (Q := fun _ b => exists o, b = { s with out := o } ∧
    Temporary base s.out o ∧ o.entry "manifest.json.tmp" = some ⟨.file text, false⟩)
    (holds_writeSynced _ ?_ ?_ ?_ ?_) (fun _ => ?_)
  · rintro b rfl hopens part
    exact htemporary _ (hpart part hopens)
  · rintro b rfl hopens
    exact ⟨_, rfl, hpart text hopens, hremoved.entry_write_self hclear hopens text⟩
  · rintro b rfl hopens part
    exact ⟨rfl, _, rfl, hpart part hopens⟩
  · rintro b rfl
    exact ⟨rfl, _, rfl, (Temporary.of_removed hbase hchanges).1⟩
  · refine Effect.holds_throwIf_bind ?_ (fun _ => ?_)
    · rintro b _ ⟨o, rfl, ho, _⟩
      exact ⟨rfl, o, rfl, ho⟩
    · apply Effect.holds_get_bind
      rintro b ⟨o, rfl, ho, hentry⟩
      refine Effect.holds_throwIf_bind ?_ (fun _ => ?_)
      · rintro b _ rfl
        exact ⟨rfl, o, rfl, ho⟩
      · have hdone : Installed base s.out text
            (o.rename "manifest.json.tmp" "manifest.json") := by
          have hrename : forall other, (o.rename "manifest.json.tmp" "manifest.json").entry other =
            _ := Out.entry_rename hentry
          refine ⟨Out.isDirectory_rename ho.directory, ?_, ?_, ?_⟩
          · intro name htmp hmanifest
            rw [hrename, if_neg hmanifest, if_neg htmp, ho.other name htmp]
          · rw [hrename, if_neg (by decide), if_pos rfl]
            rcases ho.temporary with hsame | howned
            · rcases hclear with hnone | htree
              · exact hnone.symm
              · rw [hentry, htree] at hsame
                cases hsame
            · exact howned.1.symm
          · rw [hrename, if_pos rfl]
        apply Effect.holds_modify
        · rintro b rfl
          exact hinstalled _ hdone
        · rintro b rfl
          exact ⟨_, rfl, hdone⟩

/-- The states of the writing of the manifest, and its ends. -/
theorem holds_writeManifestAtomic {printer : Printer} {env : Env} {again : Bool}
    {P I : Run -> Prop} {Q : PUnit -> Run -> Prop} {R : Exn -> Run -> Prop} (hbase : Ready base)
    (hP : forall s, P s -> exists names : String -> Prop, Out.Changes base names s.out ∧
      names "manifest.json.tmp")
    (htemporary : forall s, P s -> forall o, Temporary base s.out o -> I { s with out := o })
    (hremoved : forall s, P s -> forall o, Temporary base s.out o ->
      o.entry "manifest.json.tmp" = base.entry "manifest.json.tmp" ->
      R .system { s with out := o })
    (hinstalled : forall s, P s -> forall o,
      Installed base s.out (manifestText printer s.manifest) o ->
      I { s with out := o } ∧ Q ⟨⟩ { s with out := o } ∧
        (env.syncFails (.after again) = true -> R .system { s with out := o })) :
    (writeManifestAtomic printer env again).Holds P I Q R := by
  apply Effect.holds_get_bind
  intro s hs
  rcases hP s hs with ⟨names, hchanges, hname⟩
  have hclear := hbase.clear_record temporary_mem
  have hinstall := holds_installManifest env (manifestText printer s.manifest) again hbase
    hchanges hname (htemporary s hs) (fun o ho => (hinstalled s hs o ho).1)
  refine Effect.Holds.bind (hinstall.handle (fun e => ?_)) (fun _ => ?_)
  · have hremove : (removeFile "manifest.json.tmp").Holds
        (fun b => e = .system ∧ exists o, b = { s with out := o } ∧ Temporary base s.out o) I
        (fun _ b => e = .system ∧ R .system b) R := by
      have hagain : forall o, Temporary base s.out o ->
          Temporary base s.out (o.remove "manifest.json.tmp") ∧
          (o.remove "manifest.json.tmp").entry "manifest.json.tmp" =
            base.entry "manifest.json.tmp" := by
        intro o ho
        rcases Temporary.of_removed hbase (ho.changes hchanges hname) with ⟨hagain, hentry⟩
        refine ⟨⟨hagain.directory, ?_, hagain.temporary⟩, hentry⟩
        intro name hne
        rw [hagain.other name hne, ho.other name hne]
      apply Effect.holds_modify
      · rintro b ⟨_, o, rfl, ho⟩
        exact htemporary s hs _ (hagain o ho).1
      · rintro b ⟨he, o, rfl, ho⟩
        exact ⟨he, hremoved s hs _ (hagain o ho).1 (hagain o ho).2⟩
    refine hremove.bind (fun _ => ?_)
    apply Effect.holds_throw
    rintro b ⟨rfl, hb⟩
    exact hb
  · apply Effect.holds_throwIf
    · rintro b _ ⟨o, rfl, ho⟩
      exact (hinstalled s hs o ho).2.1
    · rintro b hsync ⟨o, rfl, ho⟩
      exact (hinstalled s hs o ho).2.2 hsync

end Manifest

/-!
## The record

The names of the record are tracked before any of them is written, the manifest last, so that
a handler that removes the newest first removes the manifest before the files it lists.
-/

/-- A run that writes its record. -/
structure Recording (base : Out) (mark : List Path) (n : Nat) (s : Run) : Prop where
  within : Within base mark kRecordFiles n s
  tracked : forall name, name ∈ kRecordFiles -> Path.out name ∈ s.tracked
  last : s.tracked.getLast? = some (.out "manifest.json")

/-- A manifest of the run is only there while it would be removed first. -/
structure Guarded (base : Out) (mark : List Path) (n : Nat) (s : Run) : Prop where
  within : Within base mark kRecordFiles n s
  manifest : s.out.entry "manifest.json" = none ∨
    s.tracked.getLast? = some (.out "manifest.json")

section Record

variable {base : Out} {mark : List Path} {n : Nat} {s s' : Run}

theorem Recording.guarded (h : Recording base mark n s) : Guarded base mark n s :=
  ⟨h.within, Or.inr h.last⟩

theorem Guarded.mono {n' : Nat} (h : Guarded base mark n s) (hn : n ≤ n') :
    Guarded base mark n' s := ⟨h.within.mono hn, h.manifest⟩

theorem Recording.congr (h : Recording base mark n s) (hout : s'.out = s.out)
    (hwritten : s'.written = s.written) (htracked : s'.tracked = s.tracked) :
    Recording base mark n s' := by
  refine ⟨h.within.congr hout hwritten htracked, ?_, ?_⟩
  · rw [htracked]
    exact h.tracked
  · rw [htracked]
    exact h.last

theorem Recording.setOut {out : Out} (h : Recording base mark n s)
    (hout : Out.Changes base
      (fun name => (name ∈ s.written ∨ name ∈ kRecordFiles) ∧ Path.out name ∈ s.tracked) out) :
    Recording base mark n { s with out := out } := ⟨h.within.setOut hout, h.tracked, h.last⟩

theorem Recording.remove (h : Recording base mark n s) (hbase : Ready base) {name : String}
    (hname : reserved name) : Recording base mark n { s with out := s.out.remove name } :=
  h.setOut (h.within.changes.remove (hbase.clear name hname))

theorem Recording.names (h : Recording base mark n s) {name : String}
    (hname : name ∈ kRecordFiles) :
    (name ∈ s.written ∨ name ∈ kRecordFiles) ∧ Path.out name ∈ s.tracked :=
  ⟨Or.inr hname, h.tracked name hname⟩

theorem recording_writeManifestAtomic {printer : Printer} {env : Env} {again : Bool}
    (hbase : Ready base) :
    (writeManifestAtomic printer env again).Holds (Recording base mark n)
      (Recording base mark n) (fun _ => Recording base mark n)
      (fun _ => Recording base mark n) := by
  have htemporary : forall s, Recording base mark n s -> forall o, Temporary base s.out o ->
      Recording base mark n { s with out := o } :=
    fun s hs o ho => hs.setOut (ho.changes hs.within.changes (hs.names temporary_mem))
  have hinstalled : forall s, Recording base mark n s -> forall o,
      Installed base s.out (manifestText printer s.manifest) o ->
      Recording base mark n { s with out := o } :=
    fun s hs o ho => hs.setOut (ho.changes hbase hs.within.changes (hs.names (by decide)))
  refine holds_writeManifestAtomic hbase ?_ htemporary (fun s hs o ho _ => htemporary s hs o ho) ?_
  · intro s hs
    exact ⟨_, hs.within.changes, hs.names temporary_mem⟩
  · intro s hs o ho
    exact ⟨hinstalled s hs o ho, hinstalled s hs o ho, fun _ => hinstalled s hs o ho⟩

/-- Before the manifest is there, with the names that are tracked so far. -/
structure Unrecorded (base : Out) (mark : List Path) (n : Nat) (done : List String) (s : Run) :
    Prop where
  within : Within base mark kRecordFiles n s
  manifest : s.out.entry "manifest.json" = none
  tracked : forall name, name ∈ done -> Path.out name ∈ s.tracked
  last : forall name, done.getLast? = some name -> s.tracked.getLast? = some (.out name)

theorem Unrecorded.guarded {done : List String} (h : Unrecorded base mark n done s) :
    Guarded base mark n s := ⟨h.within, Or.inl h.manifest⟩

theorem Unrecorded.track {done : List String} (h : Unrecorded base mark n done s)
    {name : String} (hname : name ∈ kRecordFiles) :
    Unrecorded base mark (n + 1) (done ++ [name])
      { s with tracked := s.tracked ++ [Path.out name] } := by
  refine ⟨h.within.track (Or.inr hname), h.manifest, ?_, ?_⟩
  · intro other hother
    rcases List.mem_append.mp hother with hother | hother
    · exact List.mem_append_left _ (h.tracked other hother)
    · rw [List.mem_singleton.mp hother]
      exact List.mem_append_right _ List.mem_cons_self
  · intro other hother
    rw [List.getLast?_append_of_ne_nil _ (List.cons_ne_nil _ _)] at hother ⊢
    cases hother
    rfl

theorem holds_trackOut {done : List String} {R : Exn -> Run -> Prop} {name : String}
    (hname : name ∈ kRecordFiles) (hroom : mark.length + n < kMaxTracked) :
    (trackForCleanup (.out name)).Holds (Unrecorded base mark n done) (Guarded base mark (n + 1))
      (fun _ => Unrecorded base mark (n + 1) (done ++ [name])) R := by
  apply Effect.holds_modify
  · intro s hs
    rw [if_neg (hs.within.tracked_lt hroom)]
    exact (hs.track hname).guarded
  · intro s hs
    rw [if_neg (hs.within.tracked_lt hroom)]
    exact hs.track hname

theorem holds_trackRecords {R : Exn -> Run -> Prop}
    (hroom : mark.length + (n + 3) ≤ kMaxTracked) :
    Effect.Holds (Effect.each (fun name => trackForCleanup (.out name)) kRecordFiles)
      (Unrecorded base mark n []) (Guarded base mark (n + 3))
      (fun _ => Recording base mark (n + 3)) R := by
  have hstep : forall k done name, name ∈ kRecordFiles -> k + 1 ≤ 3 ->
      (trackForCleanup (.out name)).Holds
      (Unrecorded base mark (n + k) done) (Guarded base mark (n + 3))
      (fun _ => Unrecorded base mark (n + (k + 1)) (done ++ [name])) R := by
    intro k done name hname hk
    refine (holds_trackOut hname ?_).weaken (fun _ hs => hs) ?_ (fun _ _ hs => hs)
      (fun _ _ hs => hs)
    · exact (Nat.add_lt_add_left (Nat.add_lt_add_left hk n) _).trans_le hroom
    · intro s hs
      exact hs.mono (Nat.add_le_add_left hk n)
  refine (hstep 0 [] _ (by decide) (by decide)).bind (fun _ => ?_)
  refine (hstep 1 _ _ (by decide) (by decide)).bind (fun _ => ?_)
  refine (hstep 2 _ _ (by decide) (by decide)).bind (fun _ => ?_)
  apply Effect.holds_pure
  intro s hs
  exact ⟨hs.within, hs.tracked, hs.last "manifest.json" rfl⟩

theorem holds_writeRecord {printer : Printer} {env : Env} {code : Nat} {again : Bool}
    (hbase : Ready base) (hroom : mark.length + (n + 3) ≤ kMaxTracked) :
    (writeRecord printer env code again).Holds (Unrecorded base mark n [])
      (Guarded base mark (n + 3)) (fun _ => Recording base mark (n + 3))
      (fun _ => Recording base mark (n + 3)) := by
  have hline : (addLine (ascii ("capture: exit " ++ toString code))).Holds
      (Unrecorded base mark n []) (Guarded base mark (n + 3))
      (fun _ => Unrecorded base mark n []) (fun _ => Recording base mark (n + 3)) := by
    have hkeep : forall (s : Run) (diag : List Bytes), Unrecorded base mark n [] s ->
        Unrecorded base mark n [] { s with diag := diag } :=
      fun s diag hs => ⟨hs.within.congr rfl rfl rfl, hs.manifest, hs.tracked, hs.last⟩
    apply Effect.holds_modify
    · intro s hs
      exact (hkeep s _ hs).guarded.mono (Nat.le_add_right n 3)
    · intro s hs
      exact hkeep s _ hs
  refine hline.bind (fun _ => ?_)
  refine (holds_trackRecords hroom).bind (fun _ => ?_)
  apply Effect.holds_get_bind
  intro s hs
  have hdiagnostics : (writeSynced "diagnostics.txt" (render s.diag ++ ascii "\n") false
      (env.write (.diagnostics again))).Holds (· = s) (Guarded base mark (n + 3))
      (fun _ => Recording base mark (n + 3)) (fun _ => Recording base mark (n + 3)) := by
    have hpart : forall b, b = s -> b.out.opens "diagnostics.txt" false = true -> forall part,
        Recording base mark (n + 3) { b with out := b.out.write "diagnostics.txt" part } := by
      rintro b rfl hopens part
      exact hs.setOut (hs.within.changes.write (hs.names (by decide))
        (hbase.clear_record (by decide)) hopens part)
    refine holds_writeSynced _ (fun b hb hopens part => (hpart b hb hopens part).guarded)
      (fun b hb hopens => hpart b hb hopens _) hpart ?_
    rintro b rfl
    exact hs
  refine hdiagnostics.bind (fun _ => ?_)
  have hhook : (beforeManifest env again).Holds (Recording base mark (n + 3))
      (Guarded base mark (n + 3)) (fun _ => Recording base mark (n + 3))
      (fun _ => Recording base mark (n + 3)) := by
    unfold beforeManifest
    split_ifs
    · exact Effect.holds_pure (fun _ hs => hs)
    · exact Effect.holds_ofExcept (fun _ _ _ hs => hs) (fun _ _ _ hs => hs)
  refine hhook.bind (fun _ => ?_)
  exact (recording_writeManifestAtomic hbase).weaken (fun _ hs => hs) (fun _ hs => hs.guarded)
    (fun _ _ hs => hs) (fun _ _ hs => hs)

end Record

/-!
## What the record says
-/

/-- A later state of a run that writes its record: the files beside the record are the same. -/
structure Beside (s b : Run) : Prop where
  manifest : b.manifest = s.manifest
  written : b.written = s.written
  leakOrSchema : b.leakOrSchema = s.leakOrSchema
  otherFailure : b.otherFailure = s.otherFailure
  isPartial : b.isPartial = s.isPartial
  other : forall name, name ∉ kRecordFiles -> b.out.entry name = s.out.entry name

/-- The run's manifest is in its place. -/
def Shows (printer : Printer) (s b : Run) : Prop :=
  b.out.entry "manifest.json" = some ⟨.file (manifestText printer s.manifest), false⟩

/-- The record of a run is complete. -/
structure Recorded (printer : Printer) (s : Run) (code : Nat) (b : Run) : Prop where
  beside : Beside s b
  shows : Shows printer s b
  lines : b.diag = s.diag ++ [ascii ("capture: exit " ++ toString code)]
  diagnostics : b.out.entry "diagnostics.txt" = some ⟨.file (render b.diag ++ ascii "\n"), false⟩

/-- The record of a run is not complete; its manifest can be there without being durable. -/
structure Unfinished (printer : Printer) (env : Env) (again : Bool) (s : Run) (code : Nat)
    (b : Run) : Prop where
  beside : Beside s b
  lines : b.diag = s.diag ++ [ascii ("capture: exit " ++ toString code)]
  manifest : b.out.entry "manifest.json" = none ∨
    env.syncFails (.after again) = true ∧ Shows printer s b

section Says

variable {base : Out} {s : Run} {printer : Printer} {env : Env} {code : Nat} {again : Bool}

theorem Beside.setOut {b : Run} (h : Beside s b) {out : Out}
    (hout : forall name, name ∉ kRecordFiles -> out.entry name = b.out.entry name) :
    Beside s { b with out := out } :=
  ⟨h.manifest, h.written, h.leakOrSchema, h.otherFailure, h.isPartial,
    fun name hname => (hout name hname).trans (h.other name hname)⟩

/-- A run before its manifest, with changes of its own only. -/
structure Bare (base : Out) (s : Run) (lines : List Bytes) (b : Run) : Prop where
  beside : Beside s b
  changes : Out.Changes base (fun _ => True) b.out
  manifest : b.out.entry "manifest.json" = none
  lines : b.diag = lines

theorem Bare.unfinished {b : Run}
    (h : Bare base s (s.diag ++ [ascii ("capture: exit " ++ toString code)]) b) :
    Unfinished printer env again s code b := ⟨h.beside, h.lines, Or.inl h.manifest⟩

theorem Bare.write {lines : List Bytes} {b : Run} (h : Bare base s lines b) (hbase : Ready base)
    (hopens : b.out.opens "diagnostics.txt" false = true) (part : Bytes) :
    Bare base s lines { b with out := b.out.write "diagnostics.txt" part } := by
  refine ⟨h.beside.setOut ?_, ?_, ?_, h.lines⟩
  · intro name hname
    have hne : name ≠ "diagnostics.txt" := by
      rintro rfl
      exact hname (by decide)
    rw [Out.entry_write part h.changes.directory, if_neg hne]
  · exact h.changes.write trivial (hbase.clear_record (by decide)) hopens part
  · change (b.out.write "diagnostics.txt" part).entry "manifest.json" = none
    rw [Out.entry_write part h.changes.directory, if_neg (by decide)]
    exact h.manifest

theorem Bare.temporary {lines : List Bytes} {b : Run} (h : Bare base s lines b) {o : Out}
    (ho : Temporary base b.out o) : Bare base s lines { b with out := o } := by
  refine ⟨h.beside.setOut ?_, ho.changes h.changes trivial, ?_, h.lines⟩
  · intro name hname
    apply ho.other
    rintro rfl
    exact hname (by decide)
  · exact (ho.other _ (by decide)).trans h.manifest

theorem Bare.installed {lines : List Bytes} {b : Run} (h : Bare base s lines b) {o : Out}
    (ho : Installed base b.out (manifestText printer b.manifest) o) :
    Beside s { b with out := o } ∧ Shows printer s { b with out := o } := by
  refine ⟨h.beside.setOut ?_, ?_⟩
  · intro name hname
    apply ho.other
    · rintro rfl
      exact hname (by decide)
    · rintro rfl
      exact hname (by decide)
  · have hentry := ho.manifest
    rw [h.beside.manifest] at hentry
    exact hentry

theorem bare_trackForCleanup {lines : List Bytes} {I : Run -> Prop} {R : Exn -> Run -> Prop}
    (path : Path) (hI : forall b, Bare base s lines b -> I b) :
    (trackForCleanup path).Holds (Bare base s lines) I (fun _ => Bare base s lines) R := by
  have hkeep : forall b, Bare base s lines b -> Bare base s lines
      (if b.tracked.length ≥ kMaxTracked then b
        else { b with tracked := b.tracked ++ [path] }) := by
    intro b hb
    split_ifs
    · exact hb
    · exact ⟨⟨hb.beside.manifest, hb.beside.written, hb.beside.leakOrSchema,
        hb.beside.otherFailure, hb.beside.isPartial, hb.beside.other⟩, hb.changes, hb.manifest,
        hb.lines⟩
  exact Effect.holds_modify (fun b hb => hI _ (hkeep b hb)) hkeep

/-- While the record is written the other files stay, and a manifest that is there is the run's. -/
theorem holds_writeRecord_says (printer : Printer) (env : Env) (code : Nat) (again : Bool)
    (hbase : Ready base)
    (hchanges : Out.Changes base (fun _ => True) s.out)
    (hmanifest : s.out.entry "manifest.json" = none) :
    (writeRecord printer env code again).Holds (· = s)
      (fun b => Beside s b ∧ (b.out.entry "manifest.json" = none ∨ Shows printer s b))
      (fun _ => Recorded printer s code)
      (fun _ => Unfinished printer env again s code) := by
  let lines := s.diag ++ [ascii ("capture: exit " ++ toString code)]
  have hI : forall b, Bare base s lines b ->
      Beside s b ∧ (b.out.entry "manifest.json" = none ∨ Shows printer s b) :=
    fun b hb => ⟨hb.beside, Or.inl hb.manifest⟩
  have hstart : Bare base s lines { s with diag := lines } :=
    ⟨⟨rfl, rfl, rfl, rfl, rfl, fun _ _ => rfl⟩, hchanges, hmanifest, rfl⟩
  refine Effect.Holds.bind (Q := fun _ => Bare base s lines) ?_ (fun _ => ?_)
  · apply Effect.holds_modify
    · rintro b rfl
      exact hI _ hstart
    · rintro b rfl
      exact hstart
  refine Effect.Holds.bind (Q := fun _ => Bare base s lines) ?_ (fun _ => ?_)
  · exact Effect.holds_each (J := fun _ => Bare base s lines) kRecordFiles
      (fun _ name _ => bare_trackForCleanup (.out name) hI) []
  apply Effect.holds_get_bind
  intro b hb
  refine Effect.Holds.bind (Q := fun _ c => Bare base s lines c ∧
    c.out.entry "diagnostics.txt" = some ⟨.file (render lines ++ ascii "\n"), false⟩)
    (holds_writeSynced _ ?_ ?_ ?_ ?_) (fun _ => ?_)
  · rintro c rfl hopens part
    exact hI _ (hb.write hbase hopens part)
  · rintro c rfl hopens
    refine ⟨hb.write hbase hopens _, ?_⟩
    rw [← hb.lines]
    exact hb.changes.entry_write_self (hbase.clear_record (by decide)) hopens _
  · rintro c rfl hopens part
    exact (hb.write hbase hopens part).unfinished
  · rintro c rfl
    exact hb.unfinished
  refine Effect.Holds.bind (Q := fun _ c => Bare base s lines c ∧
    c.out.entry "diagnostics.txt" = some ⟨.file (render lines ++ ascii "\n"), false⟩)
    ?_ (fun _ => ?_)
  · unfold beforeManifest
    split_ifs
    · exact Effect.holds_pure (fun _ hc => hc)
    · exact Effect.holds_ofExcept (fun _ _ _ hc => hc) (fun _ _ _ hc => hc.1.unfinished)
  refine holds_writeManifestAtomic hbase ?_ ?_ ?_ ?_
  · rintro c ⟨hc, _⟩
    exact ⟨_, hc.changes, trivial⟩
  · rintro c ⟨hc, _⟩ o ho
    exact hI _ (hc.temporary ho)
  · rintro c ⟨hc, _⟩ o ho _
    exact (hc.temporary ho).unfinished
  · rintro c ⟨hc, hdiagnostics⟩ o ho
    rcases hc.installed ho with ⟨hbeside, hshows⟩
    refine ⟨⟨hbeside, Or.inr hshows⟩, ⟨hbeside, hshows, hc.lines, ?_⟩,
      fun hsync => ⟨hbeside, hc.lines, Or.inr ⟨hsync, hshows⟩⟩⟩
    change o.entry "diagnostics.txt" = some ⟨.file (render c.diag ++ ascii "\n"), false⟩
    rw [ho.other _ (by decide) (by decide), hc.lines]
    exact hdiagnostics

/-- The writing of the record: what it tracks and what it says. -/
theorem holds_recording {mark : List Path} {n : Nat} (printer : Printer) (env : Env)
    (code : Nat) (again : Bool) (hbase : Ready base)
    (hroom : mark.length + (n + 3) ≤ kMaxTracked) (hs : Unrecorded base mark n [] s) :
    (writeRecord printer env code again).Holds (· = s)
      (fun b => Guarded base mark (n + 3) b ∧ Beside s b ∧
        (b.out.entry "manifest.json" = none ∨ Shows printer s b))
      (fun _ b => Recording base mark (n + 3) b ∧ Recorded printer s code b)
      (fun _ b => Recording base mark (n + 3) b ∧
        Unfinished printer env again s code b) := by
  have hsays := holds_writeRecord_says printer env code again hbase
    (hs.within.changes.mono (fun _ _ => trivial)) hs.manifest
  refine ((holds_writeRecord hbase hroom).and hsays).weaken ?_ (fun _ hb => hb)
    (fun _ _ hb => hb) (fun _ _ hb => hb)
  rintro b rfl
  exact ⟨hs, rfl⟩

end Says

end Capture
end Ostia

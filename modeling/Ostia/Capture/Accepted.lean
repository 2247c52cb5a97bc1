import Ostia.Capture.Consumer
import Ostia.Dev.Fetch
import Ostia.Topology.Sha256

/-!
# Which captures are accepted

What the last of a sequence of captures left is accepted by its consumer when it returned that
the capture is complete or partial, unless something was in the directory that a capture
cannot remove.
-/

namespace Ostia
namespace Capture
namespace Consumer

open Foundation
open Dev (Value)
open Dev.JsonText (FloatText)
open Dev.Manifest (Python Faults Refusal accept readRegular refuseIf verifyDir checkRegular
  checkDigests)

/-!
## What a success leaves
-/

section Leaves

variable {printer : Printer} {sha256Hex : Bytes -> String} {env : Env} {s : Run}

/-- Nothing is asked of the states. -/
theorem holds_any {A : Type} (m : M A) :
    m.Holds (fun _ => True) (fun _ => True) (fun _ _ => True) (fun _ _ => True) := by
  intro b _
  constructor
  · exact fun _ _ => trivial
  · cases (m b).result with
    | ok a => trivial
    | error e => trivial

/-- What holds after the last part of a computation. -/
theorem holds_last {A B : Type} (m : M A) {f : A -> M B} {Q : B -> Run -> Prop}
    (hf : forall a, (f a).Holds (fun _ => True) (fun _ => True) Q (fun _ _ => True)) :
    Effect.Holds (m >>= f) (fun _ => True) (fun _ => True) Q (fun _ _ => True) :=
  (holds_any m).bind hf

theorem entry_rename_source {out : Out} {source target : String} (h : source ≠ target) :
    (out.rename source target).entry source = none := by
  cases hentry : out.entry source with
  | none => rw [Out.rename_of_none hentry, hentry]
  | some e => rw [Out.entry_rename hentry, if_neg h, if_pos rfl]

/-- A manifest that is in its place has left the temporary name. -/
theorem holds_writeRecord_temporary (printer : Printer) (env : Env) (code : Nat)
    (again : Bool) :
    (writeRecord printer env code again).Holds (fun _ => True) (fun _ => True)
      (fun _ b => b.out.entry "manifest.json.tmp" = none) (fun _ _ => True) := by
  have hinstall : forall text, (installManifest env text again).Holds (fun _ => True)
      (fun _ => True) (fun _ b => b.out.entry "manifest.json.tmp" = none) (fun _ _ => True) := by
    intro text
    refine holds_last _ (fun _ => holds_last _ (fun _ => holds_last _ (fun _ =>
      holds_last _ (fun b => holds_last _ (fun _ => ?_)))))
    exact Effect.holds_modify (fun _ _ => trivial)
      (fun b _ => entry_rename_source (by decide))
  refine holds_last _ (fun _ => holds_last _ (fun _ => holds_last _ (fun b =>
    holds_last _ (fun _ => holds_last _ (fun _ => ?_)))))
  refine holds_last _ (fun b => ?_)
  refine Effect.Holds.bind (Q := fun _ b => b.out.entry "manifest.json.tmp" = none) ?_ (fun _ => ?_)
  · refine (hinstall _).handle (fun e => ?_)
    exact holds_last _ (fun _ => Effect.holds_throw (fun _ _ => trivial))
  · exact Effect.holds_throwIf (fun _ _ hb => hb) (fun _ _ _ => trivial)

/-- The exit code of a record that is written again is one of a failure. -/
theorem holds_recordAgain_exit (printer : Printer) (env : Env) :
    (recordAgain printer env).Holds (fun _ => True) (fun _ => True)
      (fun code _ => code = 1 ∨ code = 3) (fun _ _ => True) := by
  refine holds_last _ (fun _ => ?_)
  refine Effect.Holds.bind (Q := fun _ b => b.otherFailure = true)
    (Effect.holds_modify (fun _ _ => trivial) (fun _ _ => rfl)) (fun _ => ?_)
  apply Effect.holds_get_bind
  intro b hb
  rw [hb]
  refine ((holds_last _ (fun _ => holds_last _ (fun _ => holds_last _ (fun _ => ?_))))).weaken
    (fun _ _ => trivial) (fun _ hc => hc) (fun _ _ hc => hc) (fun _ _ hc => hc)
  exact Effect.holds_pure (fun _ _ => exitFor_failure _ _)

theorem holds_finish_temporary (printer : Printer) (env : Env) (mark : Nat) :
    (finish printer env mark).Holds (fun _ => True) (fun _ => True)
      (fun outcome b => b.out.entry "manifest.json.tmp" = none ∨ outcome.exitCode = 1 ∨
        outcome.exitCode = 3) (fun _ _ => True) := by
  refine holds_last _ (fun b => holds_last _ (fun _ => ?_))
  refine Effect.Holds.bind (Q := fun code b => b.out.entry "manifest.json.tmp" = none ∨
    code = 1 ∨ code = 3) ?_ (fun code => ?_)
  · refine Effect.Holds.handle (R := fun _ _ => True) ?_ (fun e => ?_)
    · refine (holds_writeRecord_temporary printer env _ false).bind (fun _ => ?_)
      refine Effect.Holds.bind (Q := fun _ b => b.out.entry "manifest.json.tmp" = none)
        (Effect.holds_modify (fun _ _ => trivial) (fun _ hb => hb)) (fun _ => ?_)
      exact Effect.holds_pure (fun _ hb => Or.inl hb)
    · cases e with
      | system =>
          exact (holds_recordAgain_exit printer env).weaken (fun _ _ => trivial)
            (fun _ hb => hb) (fun _ _ hb => Or.inr hb) (fun _ _ hb => hb)
      | _ => exact Effect.holds_throw (fun _ _ => trivial)
  · apply Effect.holds_get_bind
    intro b hb
    refine Effect.holds_pure ?_
    rintro c rfl
    exact hb

/-- The directory that a success leaves, after it began in another one. -/
structure Left (printer : Printer) (sha256Hex : Bytes -> String) (base : Out) (m : Manifest)
    (out : Out) : Prop where
  changes : Out.Changes base reserved out
  success : SuccessManifest sha256Hex m
  manifest : out.entry "manifest.json" = some ⟨.file (manifestText printer m), false⟩
  diagnostics : exists bytes, out.entry "diagnostics.txt" = some ⟨.file bytes, false⟩
  temporary : out.entry "manifest.json.tmp" = none
  listed : forall name hash, m.files.find? name = some hash ->
    exists bytes, out.entry name = some ⟨.file bytes, false⟩ ∧ hash = fileHash sha256Hex bytes
  unlisted : forall name, name ∈ kDataFiles -> m.files.find? name = none ->
    out.entry name = base.entry name

/-- A run that ends without a failure leaves its data files as they were, and its id. -/
theorem data_of_finished {base : Out} {mark : List Path} {n code : Nat} {b : Run}
    {outcome : CaptureOutcome} (h : Finished base mark n printer code s outcome b)
    (hexit : ¬ (outcome.exitCode = 1 ∨ outcome.exitCode = 3)) :
    (forall name, name ∈ kDataFiles -> b.out.entry name = s.out.entry name) ∧
      outcome.topologyId = s.manifest.topologyId := by
  cases h with
  | again formed hformed hagain hid =>
      rw [hagain.exit] at hexit
      exact absurd (exitFor_failure _ _) hexit
  | first formed c hreleased houtcome =>
      rw [houtcome] at hexit
      have hformed := hreleased.form.succeeded hexit
      constructor
      · intro name hname
        rw [show b.out = c.out by rw [hreleased.released],
          hreleased.recorded.beside.other name (fun hrecord => record_not_data hrecord hname),
          hformed]
      · rw [houtcome, hformed]

/-- A run that ends without a failure leaves a success. -/
theorem left_of_finished {base : Out} {mark : List Path} {n code : Nat} {b : Run}
    {outcome : CaptureOutcome} (hs : Within base mark [] n s)
    (hsuccess : Success base sha256Hex env s)
    (h : Finished base mark n printer code s outcome b)
    (htemporary : b.out.entry "manifest.json.tmp" = none ∨ outcome.exitCode = 1 ∨
      outcome.exitCode = 3)
    (hexit : ¬ (outcome.exitCode = 1 ∨ outcome.exitCode = 3)) :
    exists m, Left printer sha256Hex base m b.out ∧ outcome = ⟨code, m.topologyId⟩ ∧
      m.status = if s.isPartial then .partialCapture else .complete := by
  have hchanges := h.changes
  have hsame := (data_of_finished h hexit).1
  cases h with
  | again formed hformed hagain hid =>
      rw [hagain.exit] at hexit
      exact absurd (exitFor_failure _ _) hexit
  | first formed c hreleased houtcome =>
      have hcode : ¬ (code = 1 ∨ code = 3) := by
        rw [houtcome] at hexit
        exact hexit
      have hformed := hreleased.form.succeeded hcode
      have hmanifest : formed.manifest = { s.manifest with
          status := if s.isPartial then .partialCapture else .complete } := by
        rw [hformed]
      have hout : b.out = c.out := by
        rw [hreleased.released]
      have hlisted : forall name hash, s.manifest.files.find? name = some hash ->
          name ∈ s.written ∧ exists bytes, s.out.entry name = some ⟨.file bytes, false⟩ ∧
            hash = fileHash sha256Hex bytes := by
        intro name hash hhash
        by_cases hwritten : name ∈ s.written
        · obtain ⟨bytes, hentry, hfind⟩ := hsuccess.listed name hwritten
          rw [hhash] at hfind
          exact ⟨hwritten, bytes, hentry, Option.some.inj hfind⟩
        · rw [hsuccess.unlisted name hwritten] at hhash
          cases hhash
      refine ⟨formed.manifest, ?_, houtcome, ?_⟩
      · constructor
        · exact hchanges
        · rw [hmanifest]
          constructor
          · show (if s.isPartial then Status.partialCapture else .complete) ≠ .failed
            split_ifs
            all_goals decide
          · exact hsuccess.sanitized
          · exact hsuccess.leakCheck
          · exact hsuccess.topologyId
          · exact hsuccess.errors
          · obtain ⟨nvml, _, hmissing, _⟩ := hsuccess.sources
            exact ⟨nvml, hmissing⟩
          · intro e he
            obtain ⟨hwritten, bytes, _, hhash⟩ := hlisted e.1 e.2 (OrdMap.mem_entries.mp he)
            exact ⟨hs.written e.1 hwritten, bytes, hhash⟩
          · intro name hname
            obtain ⟨bytes, _, hhash⟩ := hsuccess.listed name (hsuccess.always name hname)
            exact ⟨_, hhash⟩
        · rw [hout]
          exact hreleased.recorded.shows
        · rw [hout]
          exact ⟨_, hreleased.recorded.diagnostics⟩
        · exact htemporary.resolve_right hexit
        · intro name hash hhash
          rw [hmanifest] at hhash
          obtain ⟨hwritten, bytes, hentry, hfile⟩ := hlisted name hash hhash
          exact ⟨bytes, (hsame name (hs.written name hwritten)).trans hentry, hfile⟩
        · intro name hname hnone
          rw [hmanifest] at hnone
          rw [hsame name hname]
          by_contra hne
          rcases (hs.changes.owned name hne).1.1 with hwritten | hmem
          · obtain ⟨bytes, _, hfind⟩ := hsuccess.listed name hwritten
            rw [show s.manifest.files.find? name = none from hnone] at hfind
            cases hfind
          · cases hmem
      · rw [hmanifest]

/-- A run in a prepared directory that returns no failure has published its files. -/
theorem go_finished (hs : Fresh s) (hbase : Ready s.out)
    (hroom : s.tracked.length + 18 ≤ kMaxTracked) {outcome : CaptureOutcome}
    (h : (go printer sha256Hex env s.tracked.length s).result = .ok outcome)
    (hexit : outcome.exitCode = 0 ∨ outcome.exitCode = 2) :
    stopOf sha256Hex env s = .nothing ∧
      Finished s.out s.tracked 12 printer
        (exitFor false false (stagedState sha256Hex env s).isPartial)
        (stagedState sha256Hex env s) outcome
        (go printer sha256Hex env s.tracked.length s).state ∧
      Success s.out sha256Hex env (stagedState sha256Hex env s) := by
  have hcontract := go_contract hs hbase hroom h
  have hrun := run_go printer sha256Hex env hs hbase s.tracked.length
  have hresult := (congrArg Prod.fst hrun).symm.trans h
  have hstate : (go printer sha256Hex env s.tracked.length s).state = _ :=
    congrArg Prod.snd hrun
  have hwithin : Within s.out s.tracked [] 12 (stagedState sha256Hex env s) :=
    within_stagedState hs hbase hroom
  have hjudged := (staging_returns sha256Hex env hs hbase).2
  have hfinished := (holds_finish printer env hbase hroom hwithin _ rfl).2
  dsimp only [Effect.run] at hresult
  rw [hresult] at hfinished
  have hnone : ¬ ((stopOf sha256Hex env s).SchemaFailure ∨
        (stopOf sha256Hex env s).LeakFailure) ∧ ¬ (stopOf sha256Hex env s).OtherFailure := by
    rcases hexit with hzero | htwo
    · obtain ⟨hjudge, hother, _⟩ := hcontract.exit.zero.mp hzero
      exact ⟨hjudge, fun hfails => hother (Or.inl hfails)⟩
    · obtain ⟨hjudge, hother, _⟩ := hcontract.exit.two.mp htwo
      exact ⟨hjudge, fun hfails => hother (Or.inl hfails)⟩
  have hleak := Bool.not_eq_true _ ▸ mt hjudged.leakOrSchema.mp hnone.1
  have hother := Bool.not_eq_true _ ▸ mt hjudged.otherFailure.mp hnone.2
  have hstop := hjudged.clean hleak hother
  rw [hleak, hother] at hfinished
  rw [hstate]
  exact ⟨hstop, hfinished, hjudged.success hstop⟩

/-- A run in a prepared directory that returns no failure leaves a success. -/
theorem go_left (hs : Fresh s) (hbase : Ready s.out)
    (hroom : s.tracked.length + 18 ≤ kMaxTracked) {outcome : CaptureOutcome}
    (h : (go printer sha256Hex env s.tracked.length s).result = .ok outcome)
    (hexit : outcome.exitCode = 0 ∨ outcome.exitCode = 2) :
    exists m, Left printer sha256Hex s.out m
        (go printer sha256Hex env s.tracked.length s).state.out ∧
      outcome.topologyId = m.topologyId ∧
      m.status = if outcome.exitCode = 0 then .complete else .partialCapture := by
  obtain ⟨_, hfinished, hsuccess⟩ := go_finished hs hbase hroom h hexit
  have hrun := run_go printer sha256Hex env hs hbase s.tracked.length
  have hresult := (congrArg Prod.fst hrun).symm.trans h
  have hstate : (go printer sha256Hex env s.tracked.length s).state = _ :=
    congrArg Prod.snd hrun
  have htemporary := (holds_finish_temporary printer env s.tracked.length
    (stagedState sha256Hex env s) trivial).2
  dsimp only [Effect.run] at hresult hstate
  rw [hresult] at htemporary
  dsimp only at htemporary
  rw [<- hstate] at htemporary
  have hnot : ¬ (outcome.exitCode = 1 ∨ outcome.exitCode = 3) := by omega
  obtain ⟨m, hleft, houtcome, hstatus⟩ := left_of_finished (within_stagedState hs hbase hroom)
    hsuccess hfinished htemporary hnot
  exists m
  refine ⟨hleft, ?_, ?_⟩
  · rw [houtcome]
  · rw [hstatus, houtcome]
    show _ = if exitFor false false (stagedState sha256Hex env s).isPartial = 0 then _ else _
    cases (stagedState sha256Hex env s).isPartial with
    | true => rfl
    | false => rfl

/-- Of the reserved names, a directory that was taken has only what cannot be removed. -/
theorem holds_prepareOut_reserved (env : Env) (s : Run) :
    (prepareOut env).Holds (· = s) (fun _ => True)
      (fun prepared b => prepared = true -> forall name, reserved name ->
        b.out.entry name = (s.out.entry name).filter Entry.stuck)
      (fun _ _ => True) := by
  apply Effect.holds_get_bind
  intro b hb
  cases hb
  cases hout : s.out with
  | absent =>
      refine Effect.holds_throwIf_bind (fun _ _ _ => trivial) (fun _ => ?_)
      refine Effect.Holds.bind (Q := fun _ c => c.out = .directory OrdMap.empty)
        (Effect.holds_modify (fun _ _ => trivial) (fun _ _ => rfl)) (fun _ => ?_)
      refine Effect.holds_pure ?_
      intro c hc _ name _
      rw [hc]
      rfl
  | other =>
      refine Effect.Holds.bind (Q := fun _ _ => True)
        (Effect.holds_modify (fun _ _ => trivial) (fun _ _ => trivial)) (fun _ => ?_)
      exact Effect.holds_pure (fun _ _ hfalse => by cases hfalse)
  | directory files =>
      dsimp only
      split_ifs with hempty
      · refine Effect.holds_pure ?_
        intro c hc _ name _
        rw [hc, hout]
        show OrdMap.lookup name files.entries =
          (OrdMap.lookup name files.entries).filter Entry.stuck
        rw [List.isEmpty_iff.mp hempty]
        rfl
      · cases previous env (.directory files) with
        | throws => exact Effect.holds_throw (fun _ _ => trivial)
        | notObject =>
            refine Effect.Holds.bind (Q := fun _ _ => True)
              (Effect.holds_modify (fun _ _ => trivial) (fun _ _ => trivial)) (fun _ => ?_)
            exact Effect.holds_pure (fun _ _ hfalse => by cases hfalse)
        | object =>
            have hstart : Removing s [] s := by
              refine ⟨?_, fun _ => rfl, rfl⟩
              rw [hout]
              trivial
            refine Effect.Holds.bind (Q := fun _ c => forall name, reserved name ->
              c.out.entry name = (s.out.entry name).filter Entry.stuck) ?_ (fun _ => ?_)
            · refine Effect.Holds.bind (Q := fun _ => Removing s kDataFiles) ?_ (fun _ => ?_)
              · refine (holds_removing [] _ (fun _ _ _ => trivial)).weaken ?_ (fun _ hc => hc)
                  (fun _ _ hc => hc) (fun _ _ hc => hc)
                intro c hc
                rw [hc]
                exact hstart
              · refine (holds_removing _ _ (fun _ _ _ => trivial)).bind (fun _ => ?_)
                refine Effect.holds_modify (fun _ _ => trivial) ?_
                intro c hc name hname
                show c.out.entry name = _
                rw [hc.entry, if_pos]
                exact mem_removedNames.mpr hname
            · refine Effect.holds_pure ?_
              intro c hc _
              rw [<- hout]
              exact hc

end Leaves

/-!
## What the consumer makes of a directory
-/

section Directory

variable {F : Type} [FloatText F] {py : Python F} {sha256Hex : Bytes -> String}

/-- The entries of a directory in some order. -/
def Scanned (out : Out) (entries : List (String × Dev.Manifest.Entry)) : Prop :=
  exists sorted, entriesOf out = some sorted ∧ entries.Perm sorted

theorem Scanned.directory {out : Out} {entries : List (String × Dev.Manifest.Entry)}
    (h : Scanned out entries) : exists files, out = .directory files ∧
      entries.Perm (files.entries.map fun e => (e.1, entryOf e.2.content)) := by
  obtain ⟨sorted, hsorted, hperm⟩ := h
  cases out with
  | absent => cases hsorted
  | other => cases hsorted
  | directory files =>
      cases hsorted
      exact ⟨files, rfl, hperm⟩

/-- No operation of the consumer on the directory fails. -/
def noFaults : Faults := ⟨false, fun _ => false, fun _ => false⟩

theorem Scanned.mem_iff {out : Out} {entries : List (String × Dev.Manifest.Entry)}
    (h : Scanned out entries) {e : String × Dev.Manifest.Entry} :
    e ∈ entries <-> exists entry, out.entry e.1 = some entry ∧ entryOf entry.content = e.2 := by
  obtain ⟨files, rfl, hperm⟩ := h.directory
  rw [hperm.mem_iff, List.mem_map]
  constructor
  · intro hmem
    obtain ⟨e', he', rfl⟩ := hmem
    exact ⟨e'.2, OrdMap.mem_entries.mp he', rfl⟩
  · intro hentry
    obtain ⟨entry, hentry, heq⟩ := hentry
    refine ⟨(e.1, entry), OrdMap.mem_entries.mpr hentry, ?_⟩
    rw [heq]

theorem Scanned.nodup {out : Out} {entries : List (String × Dev.Manifest.Entry)}
    (h : Scanned out entries) : (entries.map Prod.fst).Nodup := by
  obtain ⟨files, rfl, hperm⟩ := h.directory
  rw [(hperm.map Prod.fst).nodup_iff, List.map_map]
  exact files.keys_nodup

theorem quiet_noFaults : noFaults.Quiet := ⟨rfl, fun _ => rfl, fun _ => rfl⟩

/-- A regular file is read. -/
theorem Scanned.read_file {out : Out} {entries : List (String × Dev.Manifest.Entry)}
    (h : Scanned out entries) {name : String} {bytes : Bytes} {stuck : Bool}
    (hentry : out.entry name = some ⟨.file bytes, stuck⟩) :
    readRegular noFaults entries name = .ok (contentOf bytes) :=
  Dev.Manifest.readRegular_of_mem quiet_noFaults h.nodup (h.mem_iff.mpr ⟨_, hentry, rfl⟩)

/-- A name that is not there is not read. -/
theorem Scanned.read_none {out : Out} {entries : List (String × Dev.Manifest.Entry)}
    (h : Scanned out entries) {name : String} (hentry : out.entry name = none) :
    exists reason, readRegular noFaults entries name = .error (.rejected reason) := by
  have hnone : entries.find? (fun e => e.1 == name) = none := by
    rw [List.find?_eq_none]
    intro e he hname
    obtain ⟨entry, hsome, _⟩ := h.mem_iff.mp he
    rw [eq_of_beq hname, hentry] at hsome
    cases hsome
  unfold Dev.Manifest.readRegular
  rw [hnone]
  exact ⟨_, rfl⟩

theorem checkRegular_rejected {entries : List (String × Dev.Manifest.Entry)}
    {e : String × Dev.Manifest.Entry} (he : e ∈ entries)
    (hother : forall bytes, e.2 ≠ .file bytes) :
    exists reason, checkRegular entries = .error (.rejected reason) := by
  induction entries with
  | nil => cases he
  | cons head rest ih =>
      obtain ⟨name, entry⟩ := head
      cases entry with
      | symlink => exact ⟨_, rfl⟩
      | other => exact ⟨_, rfl⟩
      | file bytes =>
          rcases List.mem_cons.mp he with heq | hrest
          · rw [heq] at hother
            exact absurd rfl (hother bytes)
          · exact ih hrest

/-- An entry that the manifest does not name, or that is no regular file. -/
theorem verifyDir_rejected {entries : List (String × Dev.Manifest.Entry)} {doc : Value F}
    {listed : List (String × Value F)} (hitem : doc.item "files" = .ok (.dict listed))
    {e : String × Dev.Manifest.Entry} (he : e ∈ entries)
    (hbad : e.1 ∉ listed.map Prod.fst ++ Dev.Manifest.UNLISTED ∨ forall bytes, e.2 ≠ .file bytes) :
    exists reason, verifyDir py noFaults entries doc = .error (.rejected reason) := by
  let unexpected := (entries.filter fun e =>
    !((listed.map Prod.fst ++ Dev.Manifest.UNLISTED).contains e.1)).length
  unfold Dev.Manifest.verifyDir
  rw [hitem, Dev.Manifest.ofExn, Fallible.mapError_ok, Fallible.ok_bind]
  change exists reason, (refuseIf (decide (unexpected ≠ 0)) _ >>= _) = _
  by_cases hzero : unexpected = 0
  · rw [decide_eq_false (not_not_intro hzero), Dev.Manifest.refuseIf, if_neg Bool.false_ne_true,
      Fallible.ok_bind]
    have hother : forall bytes, e.2 ≠ .file bytes := by
      apply hbad.resolve_left
      intro hnot
      have hnone := List.filter_eq_nil_iff.mp (List.length_eq_zero_iff.mp hzero) e he
      rw [Bool.not_eq_true, Bool.not_eq_false'] at hnone
      exact hnot (List.contains_iff_mem.mp hnone)
    obtain ⟨reason, hrejected⟩ := checkRegular_rejected he hother
    rw [hrejected]
    exact ⟨reason, rfl⟩
  · rw [decide_eq_true hzero]
    exact ⟨_, rfl⟩

theorem verifyDir_ok {out : Out} {entries : List (String × Dev.Manifest.Entry)}
    (h : Scanned out entries) (hsha : forall c, py.sha256 c = sha256Hex (bytesOf c))
    {doc : Value F} {listed : List (String × Value F)}
    (hitem : doc.item "files" = .ok (.dict listed))
    (hentries : forall name entry, out.entry name = some entry ->
      name ∈ listed.map Prod.fst ++ Dev.Manifest.UNLISTED ∧
        exists bytes, entry.content = .file bytes)
    (hlisted : forall field, field ∈ listed -> exists bytes stuck,
      out.entry field.1 = some ⟨.file bytes, stuck⟩ ∧
        field.2 = .str (fileHash sha256Hex bytes)) :
    verifyDir py noFaults entries doc = .ok () := by
  apply Dev.Manifest.verifyDir_of_verified quiet_noFaults h.nodup hitem
  constructor
  · intro e he
    obtain ⟨entry, hentry, _⟩ := h.mem_iff.mp he
    exact (hentries e.1 entry hentry).1
  · intro e he
    obtain ⟨entry, hentry, heq⟩ := h.mem_iff.mp he
    obtain ⟨bytes, hbytes⟩ := (hentries e.1 entry hentry).2
    rw [hbytes] at heq
    exact ⟨_, heq.symm⟩
  · intro field hfield
    obtain ⟨bytes, stuck, hentry, hdigest⟩ := hlisted field hfield
    refine ⟨contentOf bytes, h.mem_iff.mpr ⟨_, hentry, rfl⟩, ?_⟩
    rw [hdigest, Dev.Manifest.digestOf, hsha, bytesOf_contentOf, fileHash]

end Directory

/-!
## Captures and their consumer
-/

section Captures

variable {F : Type} [FloatText F] {py : Python F} {search : String -> String -> Bool}
  {sha256Hex : Bytes -> String} {printer : Printer}

/--
A machine that can check captures: it has jsonschema, whose patterns find a hash and an id, and
it hashes as the capture does.
-/
structure Host (py : Python F) (search : String -> String -> Bool) (sha256Hex : Bytes -> String) :
    Prop where
  validates : Dev.Manifest.Validates py search
  installed : forall doc, (py.violations doc).isSome = true
  searches : Searches search sha256Hex
  length : forall bytes, (sha256Hex bytes).length = 64
  sha256 : forall c, py.sha256 c = sha256Hex (bytesOf c)

/-- What may be in the directory of a capture: what it removes, and a status. -/
def Harmless (name : String) (e : Entry) : Prop :=
  reserved name ∧ e.stuck = false ∨ name = "status.json" ∧ exists bytes, e.content = .file bytes

/-- What may be in a directory that was taken. -/
def Spare (base : Out) : Prop :=
  forall name e, base.entry name = some e ->
    name = "status.json" ∧ exists bytes, e.content = .file bytes

theorem status_not_reserved : ¬ reserved "status.json" := by
  unfold reserved
  decide

theorem read_left {base out : Out} {m : Manifest} (hleft : Left printer sha256Hex base m out)
    {entries : List (String × Dev.Manifest.Entry)} (hscan : Scanned out entries) :
    readRegular noFaults entries "manifest.json" =
      .ok (printed printer m) := by
  rw [hscan.read_file hleft.manifest, contentOf_manifestText]

/-- A success in a directory that was clean is accepted. -/
theorem accept_left (host : Host py search sha256Hex) (hread : ReadBack py printer)
    (hfits : Fits printer sha256Hex)
    {base out : Out} {m : Manifest} (hleft : Left printer sha256Hex base m out)
    (hspare : Spare base) {entries : List (String × Dev.Manifest.Entry)}
    (hscan : Scanned out entries) {id : String} (hid : m.topologyId = some id) :
    accept py noFaults (some entries) = .ok (document printer.toolVersion m id) := by
  have hitem : (document (F := F) printer.toolVersion m id).item "files" =
      .ok (.dict (m.files.entries.map fun e => (e.1, .str e.2))) := rfl
  have hsize := hfits m hleft.success
  have hverify : verifyDir py noFaults entries (document printer.toolVersion m id) = .ok () := by
    apply verifyDir_ok hscan host.sha256 hitem
    · intro name entry hentry
      rw [List.map_map]
      by_cases hsame : out.entry name = base.entry name
      · rw [hsame] at hentry
        obtain ⟨hname, hfile⟩ := hspare name entry hentry
        rw [hname]
        exact ⟨List.mem_append_right _ (by decide), hfile⟩
      · obtain ⟨hname, _, bytes, hbytes⟩ := hleft.changes.owned name hsame
        rw [hentry] at hbytes
        cases hbytes
        refine ⟨?_, bytes, rfl⟩
        rcases hname with hdata | hrecord
        · cases hfind : m.files.find? name with
          | none => exact absurd (hleft.unlisted name hdata hfind) hsame
          | some hash =>
              exact List.mem_append_left _
                (List.mem_map.mpr ⟨(name, hash), OrdMap.mem_entries.mpr hfind, rfl⟩)
        · have hne : name ≠ "manifest.json.tmp" := by
            intro heq
            rw [heq, hleft.temporary] at hentry
            cases hentry
          apply List.mem_append_right
          unfold kRecordFiles at hrecord
          simp only [List.mem_cons, List.not_mem_nil, or_false, hne, false_or] at hrecord
          rcases hrecord with heq | heq
          · rw [heq]
            decide
          · rw [heq]
            decide
    · intro field hfield
      obtain ⟨e, he, rfl⟩ := List.mem_map.mp hfield
      obtain ⟨bytes, hentry, hhash⟩ := hleft.listed e.1 e.2 (OrdMap.mem_entries.mp he)
      rw [hhash]
      exact ⟨bytes, false, hentry, rfl⟩
  unfold Dev.Manifest.accept
  simp only [read_left hleft hscan, Fallible.ok_bind, decide_eq_false (Nat.not_lt.mpr hsize)]
  rw [Dev.Manifest.refuseIf, if_neg Bool.false_ne_true, Fallible.ok_bind,
    checkManifest_success hread host.validates host.installed host.searches hleft.success hid,
    Fallible.ok_bind, hverify]
  rfl

/-- A success beside something that a capture does not remove is refused. -/
theorem accept_left_rejected (host : Host py search sha256Hex)
    (hread : ReadBack py printer)
    (hfits : Fits printer sha256Hex) {base out : Out} {m : Manifest}
    (hbase : Ready base) (hleft : Left printer sha256Hex base m out) (hspare : ¬ Spare base)
    {entries : List (String × Dev.Manifest.Entry)} (hscan : Scanned out entries) :
    exists reason, accept py noFaults (some entries) = .error (.rejected reason) := by
  obtain ⟨text, hid⟩ := hleft.success.topologyId
  have hsize := hfits m hleft.success
  have hverify : exists reason, verifyDir py noFaults entries
      (document printer.toolVersion m ("topo1:sha256:" ++ sha256Hex text)) =
        .error (.rejected reason) := by
    unfold Spare at hspare
    push Not at hspare
    obtain ⟨name, e, hentry, hbad⟩ := hspare
    have hsame : out.entry name = some e := by
      by_contra hne
      rw [<- hentry] at hne
      have hnone := (hleft.changes.owned name hne).2.1
      rw [hentry] at hnone
      cases hnone
    apply verifyDir_rejected (e := (name, entryOf e.content)) rfl
      (hscan.mem_iff.mpr ⟨e, hsame, rfl⟩)
    by_cases hfile : exists bytes, e.content = .file bytes
    · left
      obtain ⟨bytes, hbytes⟩ := hfile
      have hname : ¬ reserved name := by
        intro hreserved
        rcases hbase.clear name hreserved with hnone | htree
        · rw [hentry] at hnone
          cases hnone
        · rw [hentry] at htree
          cases htree
          cases hbytes
      intro hmem
      rcases List.mem_append.mp hmem with hlisted | hunlisted
      · rw [List.map_map] at hlisted
        obtain ⟨e', he', heq⟩ := List.mem_map.mp hlisted
        change e'.1 = name at heq
        rw [<- heq] at hname
        exact hname (Or.inl (hleft.success.listed e' he').1)
      · unfold Dev.Manifest.UNLISTED at hunlisted
        simp only [List.mem_cons, List.not_mem_nil, or_false] at hunlisted
        rcases hunlisted with heq | heq | heq
        · exact hname (Or.inr (heq ▸ by decide))
        · exact hname (Or.inr (heq ▸ by decide))
        · exact hbad heq bytes hbytes
    · right
      intro c hc
      cases hcontent : e.content with
      | file bytes => exact hfile ⟨bytes, hcontent⟩
      | link target =>
          rw [hcontent] at hc
          cases hc
      | tree =>
          rw [hcontent] at hc
          cases hc
  obtain ⟨reason, hrejected⟩ := hverify
  exists reason
  unfold Dev.Manifest.accept
  simp only [read_left hleft hscan, Fallible.ok_bind, decide_eq_false (Nat.not_lt.mpr hsize)]
  rw [Dev.Manifest.refuseIf, if_neg Bool.false_ne_true, Fallible.ok_bind,
    checkManifest_success hread host.validates host.installed host.searches hleft.success hid,
    Fallible.ok_bind, hrejected]
  rfl

/-- The directory of a failure is refused. -/
theorem accept_failed (host : Host py search sha256Hex) (hread : ReadBack py printer)
    {out : Out}
    (h : FailedDirectory printer out) {entries : List (String × Dev.Manifest.Entry)}
    (hscan : Scanned out entries) :
    exists reason, accept py noFaults (some entries) = .error (.rejected reason) := by
  unfold Dev.Manifest.accept
  rcases h.manifest with hnone | ⟨m, hfile, hstatus, hfiles, _⟩
  · obtain ⟨reason, hrejected⟩ := hscan.read_none hnone
    exists reason
    simp only [hrejected]
    rfl
  · obtain ⟨stuck, hentry⟩ : exists stuck,
        out.entry "manifest.json" = some ⟨.file (manifestText printer m), stuck⟩ := by
      unfold Out.file? at hfile
      split at hfile
      · rename_i bytes stuck hentry
        cases hfile
        exact ⟨stuck, hentry⟩
      · cases hfile
    simp only [hscan.read_file hentry, contentOf_manifestText, Fallible.ok_bind]
    obtain ⟨reason, hrejected⟩ := checkManifest_failed hread host.installed hstatus hfiles
    unfold Dev.Manifest.refuseIf
    split_ifs
    · exact ⟨_, rfl⟩
    · rw [Fallible.ok_bind, hrejected]
      exact ⟨reason, rfl⟩

/-- The machine on which a command runs. -/
def envOf : Command -> Env
  | .capture env _ => env
  | .failed _ env _ => env

theorem spare_iff {s b : Run} (hprepared : Prepared s b)
    (hreserved : forall name, reserved name ->
      b.out.entry name = (s.out.entry name).filter Entry.stuck) :
    Spare b.out <-> forall name e, s.out.entry name = some e -> Harmless name e := by
  constructor
  · intro hspare name e hentry
    by_cases hname : reserved name
    · cases hstuck : e.stuck with
      | false => exact Or.inl ⟨hname, hstuck⟩
      | true =>
          have hstays : b.out.entry name = some e := by
            rw [hreserved name hname, hentry, Option.filter_some, if_pos hstuck]
          exact absurd ((hspare name e hstays).1 ▸ hname) status_not_reserved
    · right
      exact hspare name e ((hprepared.other name hname).trans hentry)
  · intro hharmless name e hentry
    by_cases hname : reserved name
    · rw [hreserved name hname, Option.filter_eq_some_iff] at hentry
      rcases hharmless name e hentry.1 with ⟨_, hstuck⟩ | hstatus
      · rw [hstuck] at hentry
        cases hentry.2
      · exact absurd (hstatus.1 ▸ hname) status_not_reserved
    · rw [hprepared.other name hname] at hentry
      rcases hharmless name e hentry with ⟨hreserve, _⟩ | hstatus
      · exact absurd hreserve hname
      · exact hstatus

/-- A run that takes its output has removed what can be removed. -/
theorem prepared_reserved {env : Env} {s : Run} (hs : Removable s.out)
    (htaken : ¬ Refuses env s.out) (hresult : exists outcome,
      (capture printer sha256Hex env s).result = .ok outcome) :
    forall name, reserved name ->
      (prepareOut env s).state.out.entry name = (s.out.entry name).filter Entry.stuck := by
  have hreserved := (holds_prepareOut_reserved env s s rfl).2
  have hprepare := (holds_prepareOut env (I := fun _ => True) hs (fun _ _ => trivial)
    (fun _ _ _ _ => trivial) (fun _ _ => trivial) s rfl).2
  cases hgo : (prepareOut env s).result with
  | ok prepared =>
      rw [hgo] at hreserved hprepare
      rcases hprepare with ⟨htrue, _, _⟩ | ⟨_, hrefuses, _⟩
      · exact hreserved htrue
      · exact absurd hrefuses htaken
  | error e =>
      rw [hgo] at hprepare
      have hnot : e ≠ .system := fun heq => htaken (hprepare.1 heq)
      have hhandle : Effect.run (handleSystem (prepareOut env) (pure false)) s = _ :=
        Effect.run_handle_of_error _ hgo
      obtain ⟨outcome, hresult⟩ := hresult
      cases e with
      | system => exact absurd rfl hnot
      | _ =>
          have hcapture : Effect.run (capture printer sha256Hex env) s = _ :=
            Effect.run_bind_of_error _ (congrArg Prod.fst hhandle)
          cases hresult.symm.trans (congrArg Prod.fst hcapture)

theorem exit_failed {stop : Stop} {recordFails nvmlMissing : Prop} {code : Nat}
    (h : ExitCodes stop recordFails nvmlMissing code) (hexit : ¬ (code = 0 ∨ code = 2)) :
    code = 1 ∨ code = 3 := by
  by_cases hjudge : stop.SchemaFailure ∨ stop.LeakFailure
  · exact Or.inr (h.three.mpr hjudge)
  · by_cases hother : stop.OtherFailure ∨ recordFails
    · exact Or.inl (h.one.mpr ⟨hjudge, hother⟩)
    · exfalso
      apply hexit
      by_cases hmissing : nvmlMissing
      · exact Or.inr (h.two.mpr ⟨hjudge, hother, hmissing⟩)
      · exact Or.inl (h.zero.mpr ⟨hjudge, hother, hmissing⟩)

/-- What a consumer makes of a directory, for how a command returned and what it began with. -/
structure Consumed (py : Python F) (outcome : CaptureOutcome) (before : Out)
    (entries : List (String × Dev.Manifest.Entry)) : Prop where
  accepted : outcome.exitCode = 0 ∨ outcome.exitCode = 2 ->
    (forall name e, before.entry name = some e -> Harmless name e) ->
    exists doc id, accept py noFaults (some entries) = .ok doc ∧
      doc.item "status" = .ok (.str (if outcome.exitCode = 0 then "complete" else "partial")) ∧
      doc.item "topology_id" = .ok (.str id) ∧ outcome.topologyId = some id
  refused : ¬ ((outcome.exitCode = 0 ∨ outcome.exitCode = 2) ∧
      forall name e, before.entry name = some e -> Harmless name e) ->
    exists reason, accept py noFaults (some entries) = .error (.rejected reason)

/-- One command and its consumer. -/
theorem consumed (host : Host py search sha256Hex) (hread : ReadBack py printer)
    (hfits : Fits printer sha256Hex)
    (c : Command) {out : Out} (hout : Removable out) (htaken : ¬ Refuses (envOf c) out)
    {outcome : CaptureOutcome} (h : (c.run printer sha256Hex out).result = .ok outcome)
    {entries : List (String × Dev.Manifest.Entry)}
    (hscan : Scanned (c.run printer sha256Hex out).state.out entries) :
    Consumed py outcome out entries := by
  have hcontract := c.contract hout h
  cases c with
  | failed code env diag =>
      obtain ⟨hexit, ⟨hrefuses, _⟩ | ⟨_, hfailed⟩⟩ := hcontract
      · exact absurd hrefuses htaken
      · constructor
        · intro hgood
          omega
        · intro _
          exact accept_failed host hread hfailed hscan
  | capture env diag =>
      rcases hcontract with ⟨hrefuses, _⟩ | ⟨_, hcontract⟩
      · exact absurd hrefuses htaken
      have hs : Removable (Run.start out [] diag).out := hout
      cases captured printer sha256Hex env hs with
      | refused hrefuses _ _ => exact absurd hrefuses htaken
      | thrown e hresult _ => cases h.symm.trans hresult
      | went _ b hb hprepared hresult hend =>
          have hreserved : forall name, reserved name ->
              b.out.entry name = (out.entry name).filter Entry.stuck := by
            rw [hb]
            exact prepared_reserved hs htaken ⟨outcome, h⟩
          have hspare := spare_iff hprepared hreserved
          have hgo := hresult.symm.trans h
          constructor
          · intro hexit hharmless
            obtain ⟨m, hleft, hid, hstatus⟩ := go_left
              (hprepared.fresh (start_fresh out [] diag)) hprepared.ready (hprepared.room rfl) hgo
              hexit
            rw [<- hend] at hleft
            obtain ⟨text, htext⟩ := hleft.success.topologyId
            refine ⟨_, _, accept_left host hread hfits hleft (hspare.mpr hharmless) hscan htext, ?_,
              rfl, hid.trans htext⟩
            show Except.ok (Value.str m.status.name) = _
            rw [hstatus]
            split_ifs
            all_goals rfl
          · intro hbad
            by_cases hexit : outcome.exitCode = 0 ∨ outcome.exitCode = 2
            · obtain ⟨m, hleft, _, _⟩ := go_left
                (hprepared.fresh (start_fresh out [] diag)) hprepared.ready (hprepared.room rfl) hgo
                hexit
              rw [<- hend] at hleft
              have hnot : ¬ Spare b.out := fun hyes => hbad ⟨hexit, hspare.mp hyes⟩
              exact accept_left_rejected host hread hfits hprepared.ready hleft hnot hscan
            · apply accept_failed host hread (hcontract.failed ?_) hscan
              exact exit_failed hcontract.exit hexit

/-- After any sequence of commands, what the last one left is accepted as its exit code says. -/
theorem captures_consumed (host : Host py search sha256Hex) (hread : ReadBack py printer)
    (hfits : Fits printer sha256Hex)
    (commands : List Command) (c : Command) {out : Out} (hout : Removable out)
    (htaken : ¬ Refuses (envOf c) (runAll printer sha256Hex commands out))
    {outcome : CaptureOutcome}
    (h : (c.run printer sha256Hex (runAll printer sha256Hex commands out)).result =
      .ok outcome) {entries : List (String × Dev.Manifest.Entry)}
    (hscan : Scanned (runAll printer sha256Hex (commands ++ [c]) out) entries) :
    Consumed py outcome (runAll printer sha256Hex commands out) entries := by
  have hlast : runAll printer sha256Hex (commands ++ [c]) out =
      (c.run printer sha256Hex (runAll printer sha256Hex commands out)).state.out := by
    unfold runAll
    rw [List.foldl_append]
    rfl
  rw [hlast] at hscan
  exact consumed host hread hfits c (runAll_removable printer sha256Hex commands hout) htaken h
    hscan

/-- The consumer with the hash of the tool. -/
def plainPython : Python Dev.JsonText.Half :=
  { Dev.Fetch.smallTools.toPython with
    sha256 := fun content => Topology.Sha256.sha256Hex (bytesOf content) }

theorem searchPattern_append {pattern start : String}
    (hstart : (if pattern = Dev.Manifest.hashPattern then "sha256:".toList
      else "topo1:sha256:".toList) = start.toList) (bytes : Bytes) :
    Dev.Fetch.searchPattern pattern (start ++ Topology.Sha256.sha256Hex bytes) = true := by
  have hhex : forall c, c ∈ Topology.Sha256.kHex -> Dev.Fetch.isLowerHex c = true := by decide
  have hdigits := Topology.Sha256.sha256Hex_digits bytes
  unfold Dev.Fetch.searchPattern
  dsimp only
  rw [hstart, String.toList_append, List.length_append, hdigits.1, List.drop_left]
  simp only [Bool.and_eq_true, beq_self_eq_true, and_true]
  constructor
  · exact List.isPrefixOf_iff_prefix.mpr (List.prefix_append _ _)
  · exact List.all_eq_true.mpr fun c hc => hhex c (hdigits.2 c hc)

theorem plainHost :
    Host plainPython Dev.Fetch.searchPattern Topology.Sha256.sha256Hex := by
  constructor
  · exact Dev.Fetch.smallTools_validates
  · exact fun _ => rfl
  · constructor
    · exact searchPattern_append (if_pos rfl)
    · exact searchPattern_append (if_neg (by decide))
  · exact fun bytes => (Topology.Sha256.sha256Hex_digits bytes).1
  · exact fun _ => rfl

/-- The directory after two captures of a machine without GPUs. -/
def plainDirectory : Out :=
  runAll prettyPrinter Topology.Sha256.sha256Hex
    ([.capture plainMachine []] ++ [.capture plainMachine []]) .absent

theorem scanned_plainDirectory : Scanned plainDirectory ((entriesOf plainDirectory).getD []) := by
  cases h : entriesOf plainDirectory with
  | some sorted => exact ⟨sorted, h, List.Perm.refl _⟩
  | none =>
      have hsome : (entriesOf plainDirectory).isSome = true := by decide +kernel
      rw [h] at hsome
      cases hsome

set_option maxRecDepth 20000 in
theorem captures_consumed_plain :
    Consumed plainPython ⟨0, some ("topo1:sha256:" ++ Topology.Sha256.sha256Hex [])⟩
      (runAll prettyPrinter Topology.Sha256.sha256Hex [.capture plainMachine []] .absent)
      ((entriesOf plainDirectory).getD []) := by
  apply captures_consumed plainHost (readBack_pretty (fun _ => rfl)) (fits_pretty plainHost.length)
    [.capture plainMachine []] (.capture plainMachine []) removable_absent
  · exact not_refuses_of_read (by decide +kernel)
  · with_unfolding_all rfl
  · exact scanned_plainDirectory

end Captures

end Consumer
end Capture
end Ostia

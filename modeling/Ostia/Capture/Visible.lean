import Ostia.Capture.Contract

/-!
# What a reader can see during a run

A reader of the output directory, or a run that is killed, meets it between any two file
operations.  A manifest that is seen there should list only files that are there.
-/

namespace Ostia
namespace Capture

open Foundation

/-- A visible manifest of a capture that did not fail lists files that are there. -/
def Sound (printer : Printer) (sha256Hex : Bytes -> String) (out : Out) : Prop :=
  forall m : Manifest, out.file? "manifest.json" = some (manifestText printer m) ->
    m.status ≠ .failed -> forall name hash, m.files.find? name = some hash ->
      exists bytes, out.file? name = some bytes ∧ hash = fileHash sha256Hex bytes

/-- A manifest is there and every file that it lists. -/
def Backed (printer : Printer) (sha256Hex : Bytes -> String) (out : Out) : Prop :=
  exists m : Manifest, out.file? "manifest.json" = some (manifestText printer m) ∧
    forall name hash, m.files.find? name = some hash ->
      exists bytes, out.file? name = some bytes ∧ hash = fileHash sha256Hex bytes

section Sound

variable {printer : Printer} {sha256Hex : Bytes -> String} {env : Env} {base out : Out}
  {mark : List Path} {n code : Nat} {s b formed : Run} {stop : Stop}

theorem sound_of_none (h : out.entry "manifest.json" = none) :
    Sound printer sha256Hex out := by
  intro m hm
  unfold Out.file? at hm
  rw [h] at hm
  cases hm

theorem sound_of_failed {m : Manifest} {text : Bytes}
    (h : out.file? "manifest.json" = some text) (htext : text = manifestText printer m)
    (hm : m.status = .failed) : Sound printer sha256Hex out := by
  intro m' hm' hstatus
  rw [h, htext] at hm'
  have hsame := manifestText_inj printer (Option.some.inj hm')
  exact absurd (hsame.1.symm.trans hm) hstatus

/-- A run that is about to record a success lists what it wrote. -/
theorem Formed.success (h : Formed base mark n (exitFor s.leakOrSchema s.otherFailure s.isPartial)
      s formed) (hs : Judged base sha256Hex env stop s) :
    (exists m : Manifest, formed.manifest = m.failedForm) ∨ stop = .nothing ∧
      forall name hash, formed.manifest.files.find? name = some hash ->
        exists bytes, formed.out.entry name = some ⟨.file bytes, false⟩ ∧
          hash = fileHash sha256Hex bytes ∧ name ∈ formed.written := by
  by_cases hcode : exitFor s.leakOrSchema s.otherFailure s.isPartial = 1 ∨
      exitFor s.leakOrSchema s.otherFailure s.isPartial = 3
  · exact Or.inl (h.failed hcode).2
  · right
    have hleak : s.leakOrSchema = false := by
      rw [← Bool.not_eq_true]
      intro hleak
      exact hcode (Or.inr ((exitFor_eq _ _ _).1.mpr hleak))
    have hother : s.otherFailure = false := by
      rw [← Bool.not_eq_true]
      intro hother
      rw [hleak, hother] at hcode
      exact hcode (exitFor_failure _ _)
    have hstop := hs.clean hleak hother
    have hsuccess := hs.success hstop
    refine ⟨hstop, ?_⟩
    rw [h.succeeded hcode]
    intro name hash hhash
    have hwritten : name ∈ s.written := by
      by_contra hnot
      have hnone := hsuccess.unlisted name hnot
      rw [hnone] at hhash
      cases hhash
    rcases hsuccess.listed name hwritten with ⟨bytes, hentry, hlisted⟩
    refine ⟨bytes, hentry, ?_, hwritten⟩
    rw [hlisted] at hhash
    exact (Option.some.inj hhash).symm

/-- The listed files are there beside the manifest. -/
theorem backed_of_whole (hform : Formed base mark n
      (exitFor s.leakOrSchema s.otherFailure s.isPartial) s formed)
    (hs : Judged base sha256Hex env stop s) (hshows : Shows printer formed b)
    (hbeside : Beside formed b) : Backed printer sha256Hex b.out := by
  refine ⟨formed.manifest, file?_eq_of_entry hshows, ?_⟩
  intro name hash hhash
  rcases hform.success hs with ⟨m, hm⟩ | ⟨_, hlisted⟩
  · rw [hm] at hhash
    cases hhash
  · rcases hlisted name hash hhash with ⟨bytes, hentry, hbytes, hwritten⟩
    refine ⟨bytes, file?_eq_of_entry ?_, hbytes⟩
    rw [hbeside.other name (fun hrecord =>
      record_not_data hrecord (hform.within.written name hwritten))]
    exact hentry

theorem Backed.sound (h : Backed printer sha256Hex out) :
    Sound printer sha256Hex out := by
  rcases h with ⟨m, hm, hfiles⟩
  intro m' hm' _ name hash hhash
  rw [hm] at hm'
  rw [← (manifestText_inj printer (Option.some.inj hm')).2.1] at hhash
  exact hfiles name hash hhash

/-- What is seen of a run is sound, unless its manifest is there without being synced. -/
theorem Seen.sound (h : Seen base mark n printer env
      (exitFor s.leakOrSchema s.otherFailure s.isPartial) s b)
    (hs : Judged base sha256Hex env stop s)
    (hsync : stop ≠ .nothing ∨ env.syncFails (.after false) = false) :
    Sound printer sha256Hex b.out := by
  rcases h with hnone | ⟨formed, hform, hsight⟩
  · exact sound_of_none hnone
  · cases hsight with
    | absent hnone => exact sound_of_none hnone
    | failed m hm => exact sound_of_failed (file?_eq_of_entry hm) rfl rfl
    | whole hshows hbeside => exact (backed_of_whole hform hs hshows hbeside).sound
    | torn hshows htorn =>
        rcases hform.success hs with ⟨m, hm⟩ | ⟨hstop, _⟩
        · refine sound_of_failed (file?_eq_of_entry hshows) rfl ?_
          rw [hm]
          rfl
        · rcases hsync with hne | hsynced
          · exact absurd hstop hne
          · rw [hsynced] at htorn
            cases htorn

theorem Released.backed {c : Run} (h : Released base mark n printer
      (exitFor s.leakOrSchema s.otherFailure s.isPartial) s formed c b)
    (hs : Judged base sha256Hex env stop s) : Backed printer sha256Hex b.out := by
  rw [h.released]
  exact backed_of_whole (b := c) h.form hs h.recorded.shows h.recorded.beside

theorem Finished.sound {outcome : CaptureOutcome} (hbase : Ready base)
    (h : Finished base mark n printer
      (exitFor s.leakOrSchema s.otherFailure s.isPartial) s outcome b)
    (hs : Judged base sha256Hex env stop s) : Sound printer sha256Hex b.out := by
  cases h with
  | first formed c hreleased _ => exact (hreleased.backed hs).sound
  | again formed _ hagain _ =>
      rcases hagain.record with ⟨d, hmanifest, _, hrecorded⟩ | hnone
      · refine sound_of_failed (file?_eq_of_entry hrecorded.shows) rfl ?_
        rw [hmanifest]
        rfl
      · exact sound_of_none ((hnone _ (by decide)).trans hbase.manifest)

/-- Every moment of a run in its scope is sound. -/
theorem holds_go_sound (hs : Fresh s) (hbase : Ready s.out)
    (hroom : s.tracked.length + 18 ≤ kMaxTracked)
    (hsync : stopOf sha256Hex env s ≠ .nothing ∨ env.syncFails (.after false) = false) :
    (go printer sha256Hex env s.tracked.length).Holds (· = s)
      (fun b => Sound printer sha256Hex b.out)
      (fun _ b => Sound printer sha256Hex b.out)
      (fun _ b => Sound printer sha256Hex b.out) := by
  have hjudged := (staging_returns sha256Hex env hs hbase).2
  refine (holds_go printer sha256Hex env hs hbase hroom).weaken (fun _ hb => hb) ?_ ?_ ?_
  · rintro b (hwithin | hmoment)
    · exact sound_of_none (hwithin.manifest_none hbase)
    · cases hmoment with
      | guarded _ hseen => exact hseen.sound hjudged hsync
      | released formed c hreleased => exact (hreleased.backed hjudged).sound
  · intro outcome b hfinished
    exact hfinished.sound hbase hjudged
  · rintro e b ⟨hseen, _⟩
    exact hseen.sound hjudged hsync

/-!
## Commands over an earlier capture
-/

/-- The earlier capture is left alone, or it lists nothing that could go missing. -/
def Undisturbed (printer : Printer) (env : Env) (out : Out) : Prop :=
  Refuses env out ∨ forall m : Manifest,
    out.file? "manifest.json" = some (manifestText printer m) -> m.status = .failed

/--
The earlier capture has nothing to lose, and a success is recorded only when the directory
can be synced after the rename.
-/
def Command.Orderly (printer : Printer) (sha256Hex : Bytes -> String) (out : Out) :
    Command -> Prop
  | .capture env diag => Undisturbed printer env out ∧
      (stopOf sha256Hex env (prepareOut env (Run.start out [] diag)).state ≠ .nothing ∨
        env.syncFails (.after false) = false)
  | .failed _ env _ => Undisturbed printer env out

theorem Removing.file? {done : List String} {name : String} {bytes : Bytes}
    (h : Removing s done b) (hfile : b.out.file? name = some bytes) :
    s.out.file? name = some bytes := by
  have hentry := h.entry name
  unfold Out.file? at hfile ⊢
  rw [hentry] at hfile
  split_ifs at hfile
  · cases he : s.out.entry name with
    | none =>
        rw [he] at hfile
        cases hfile
    | some e =>
        rw [he, Option.filter_some] at hfile
        split_ifs at hfile
        exact hfile
  · exact hfile

theorem Removing.sound {done : List String} (sha256Hex : Bytes -> String) (h : Removing s done b)
    (hundisturbed : Undisturbed printer env s.out) (hobject : previous env s.out = .object) :
    Sound printer sha256Hex b.out := by
  intro m hm hstatus
  rcases hundisturbed with hrefuses | hfailed
  · unfold Refuses at hrefuses
    cases hs : s.out with
    | absent =>
        rw [hs] at hobject
        unfold previous at hobject
        split_ifs at hobject
        cases hobject
    | other =>
        rw [hs] at hobject
        unfold previous at hobject
        split_ifs at hobject
        cases hobject
    | directory files =>
        rw [hs] at hrefuses hobject
        have hcontra := hobject.symm.trans hrefuses.2
        cases hcontra
  · exact absurd (hfailed m (h.file? hm)) hstatus

end Sound

/-- A reader of an orderly command never sees a manifest that lists a file that is gone. -/
theorem visible_sound (printer : Printer) (sha256Hex : Bytes -> String) (c : Command)
    {out : Out} (hout : Removable out) (hsound : Sound printer sha256Hex out)
    (h : c.Orderly printer sha256Hex out) :
    forall v, v ∈ (c.run printer sha256Hex out).visited ->
      Sound printer sha256Hex v.out := by
  have hsame : forall b : Run, b.out = out -> Sound printer sha256Hex b.out := by
    intro b hb
    rw [hb]
    exact hsound
  cases c with
  | failed code env diag =>
      refine ((holds_writeFailedCapture printer env code hout rfl hsame ?_ ?_)
        (Run.start out [] diag) rfl).1
      · intro start done b hstart hobject hb
        change start.out = out at hstart
        change previous env out = .object at hobject
        rw [← hstart] at hobject
        have hundisturbed : Undisturbed printer env start.out := hstart ▸ h
        exact hb.sound sha256Hex hundisturbed hobject
      · intro base m b _ hb
        rcases hb.shown with hnone | hshown
        · exact sound_of_none hnone
        · exact sound_of_failed (file?_eq_of_entry hshown) rfl rfl
  | capture env diag =>
      rcases h with ⟨hundisturbed, hsync⟩
      have hcapture : (capture printer sha256Hex env).Holds (· = Run.start out [] diag)
          (fun b => Sound printer sha256Hex b.out) (fun _ _ => True) (fun _ _ => True) := by
        have hprepare := (holds_prepareOut env (s := Run.start out [] diag) hout hsame
          (fun done b hobject hb => hb.sound sha256Hex hundisturbed hobject)
          (fun b hb => sound_of_none hb.ready.manifest)).ends_at
        refine Effect.Holds.bind (Q := fun prepared b => prepared = true ->
          Prepared (Run.start out [] diag) b ∧
            b = (prepareOut env (Run.start out [] diag)).state)
          (holds_handleSystem (hprepare.weaken (fun _ hb => hb) (fun _ hb => hb) ?_
            (fun _ _ hb => hb)) ?_ (fun _ _ _ => trivial)) (fun prepared => ?_)
        · rintro prepared b ⟨hb, hlast⟩ hprepared
          rcases hb with ⟨_, _, hb⟩ | ⟨hfalse, _⟩
          · exact ⟨hb, hlast⟩
          · rw [hfalse] at hprepared
            cases hprepared
        · apply Effect.holds_pure
          intro b _ hfalse
          cases hfalse
        · cases prepared with
          | false => exact Effect.holds_pure (fun _ _ => trivial)
          | true =>
              apply Effect.holds_get_bind
              intro b hb
              rcases hb rfl with ⟨hprepared, hlast⟩
              rw [← hlast] at hsync
              exact (holds_go_sound (hprepared.fresh (start_fresh out [] diag)) hprepared.ready
                (hprepared.room rfl) hsync).ensure (fun _ c hc => ⟨hc, trivial⟩)
                (fun _ c hc => ⟨hc, trivial⟩)
      exact (hcapture _ rfl).1

theorem CompleteDirectory.sound {printer : Printer} {sha256Hex : Bytes -> String} {out : Out}
    (h : CompleteDirectory printer sha256Hex out) : Sound printer sha256Hex out := by
  rcases h with ⟨m, hm, _, _, _, hfiles⟩
  intro m' hm' _ name hash hhash
  rw [hm] at hm'
  rw [← (manifestText_inj printer (Option.some.inj hm')).2.1, hfiles] at hhash
  split_ifs at hhash
  cases hbytes : out.file? name with
  | none =>
      rw [hbytes] at hhash
      cases hhash
  | some bytes =>
      rw [hbytes] at hhash
      exact ⟨bytes, rfl, (Option.some.inj hhash).symm⟩

/-- The directory after one command into a new directory, with a fixed hash. -/
def afterFirst (c : Command) : Out := (c.run prettyPrinter (fun _ => "00") .absent).state.out

/-- A capture over a failed one, whose manifest lists nothing. -/
theorem visible_sound_failed :
    (afterFirst (.failed .hwlocLoad plainMachine [])).file? "manifest.json" =
        some (manifestText prettyPrinter { Manifest.start with errors := [.hwlocLoad] }) ∧
      forall v, v ∈ ((Command.capture plainMachine []).run prettyPrinter (fun _ => "00")
          (afterFirst (.failed .hwlocLoad plainMachine []))).visited ->
        Sound prettyPrinter (fun _ => "00") v.out := by
  have hmanifest : (afterFirst (.failed .hwlocLoad plainMachine [])).file? "manifest.json" =
      some (manifestText prettyPrinter { Manifest.start with errors := [.hwlocLoad] }) := by
    rfl
  refine ⟨hmanifest, visible_sound prettyPrinter (fun _ => "00") (.capture plainMachine [])
    (Command.keeps _ removable_absent).2 (sound_of_failed hmanifest rfl rfl)
    ⟨Or.inr ?_, Or.inr rfl⟩⟩
  intro m hm
  rw [hmanifest] at hm
  exact (manifestText_inj prettyPrinter (Option.some.inj hm)).1.symm

set_option maxRecDepth 20000 in
/-- A capture over a complete one removes a listed file while the manifest is still there. -/
theorem visible_torn : CompleteDirectory prettyPrinter (fun _ => "00")
      (afterFirst (.capture plainMachine [])) ∧
    ¬ forall v, v ∈ ((Command.capture plainMachine []).run prettyPrinter (fun _ => "00")
        (afterFirst (.capture plainMachine []))).visited ->
      Sound prettyPrinter (fun _ => "00") v.out := by
  constructor
  · have hresult : ((Command.capture plainMachine []).run prettyPrinter (fun _ => "00")
      .absent).result =
        .ok ⟨0, some "topo1:sha256:00"⟩ := Fallible.eq_ok_of_toOption (by decide +kernel)
    rcases Command.contract (.capture plainMachine []) removable_absent hresult with
      ⟨_, hexit, _⟩ | ⟨_, hcontract⟩
    · cases hexit
    · exact hcontract.complete (Or.inl rfl)
  · intro hsound
    let m := ((Command.capture plainMachine []).run prettyPrinter (fun _ => "00")
      .absent).state.manifest
    have hhead : ((Command.capture plainMachine []).run prettyPrinter (fun _ => "00")
        (afterFirst (.capture plainMachine []))).visited.head?.map
          (fun v => (v.out.file? "manifest.json", v.out.file? "hwloc.xml")) =
        some (some (manifestText prettyPrinter m), none) := by
      with_unfolding_all rfl
    rcases Option.map_eq_some_iff.mp hhead with ⟨v, hv, htorn⟩
    rcases Prod.mk.inj htorn with ⟨hmanifest, hxml⟩
    have hfind : m.files.find? "hwloc.xml" = some "sha256:00" := by decide +kernel
    have hstatus : m.status ≠ .failed := by decide +kernel
    rcases hsound v (List.mem_of_head? hv) m hmanifest hstatus _ _ hfind with ⟨bytes, hbytes, _⟩
    rw [hxml] at hbytes
    cases hbytes

end Capture
end Ostia

import Ostia.Dev.PairFile

/-!
# The stamp of the gate

After a run on two machines the gate writes the pair file and stamps the records with
the id of the pair.  A failure removes the pair file again, since a pair file beside
records without the stamp would claim a pair that the records do not carry.
-/

namespace Ostia
namespace Dev

open Foundation
open JsonText
open Text

namespace Gate

variable {F : Type} [FloatText F]

/-!
## The pair id
-/

/-- A program that was run: it could not start, or its exit code and output. -/
inductive Ran where
  | notStarted
  | exited (code : Int) (output : Content)

/-- The tools on the machine of the gate. -/
structure Tools where
  /-- The command runs inside a pixi environment. -/
  environment : Bool
  build : Ran
  topoId : Ran

/-- The output of `ostia-topo id`. -/
def pairId (tools : Tools) : Except Exn String :=
  if !tools.environment then
    .error (.ostiaError "ostia-dev topo id must run inside a pixi environment")
  else
    match tools.build with
    | .notStarted => .error .osError
    | .exited code _ =>
        if code ≠ 0 then .error (.ostiaError "ostia-topo did not build")
        else
          match tools.topoId with
          | .notStarted => .error .osError
          | .exited _ (.other _) => .error .unicodeDecodeError
          | .exited code (.utf8 out) =>
              if code ≠ 0 then
                .error (.ostiaError "ostia-topo could not compute the topology id of capture")
              else .ok (strip out)

/-!
## The stamp
-/

/-- The pair file: the whole document, or what a failed write left. -/
inductive PairJson where
  | document (pair : PairFile.Pair)
  | incomplete
deriving DecidableEq, Repr

/-- The files of a run: the captures with their status, the pair file and the records. -/
structure Files where
  status : Option Content
  nics : Option Content
  nics' : Option Content
  results : Option Content
  pairJson : Option PairJson

/-- What the disk does with a write. -/
structure Disk where
  writesPair : Bool
  /-- A write of the pair file that fails leaves a part of it. -/
  leavesPart : Bool
  writesRecords : Bool
  replaces : Bool

/-- The capture of a machine was accepted, and is complete. -/
def usableCapture (status : Value F) (node : String) : Bool :=
  match status with
  | .dict fields =>
      match Value.lookup node fields with
      | some (.dict entry) =>
          !((Value.lookup "result" entry).getD .none).differs (.str "accepted") &&
            !((Value.lookup "status" entry).getD .none).differs (.str "complete")
      | _ => false
  | _ => false

/-- The status of the captures; a file that cannot be read is an empty one. -/
def readStatus (file : Option Content) : Value F :=
  match readText file >>= loads with
  | .ok v => v
  | .error _ => .dict []

def usable (F : Type) [FloatText F] (file : Option Content) : Bool :=
  PairFile.nodeDirs.all fun node => usableCapture (readStatus file : Value F) node

/-- Write the pair file. -/
def writePairJson (py : PairFile.Python F) (disk : Disk) (rdmaNics : String) (files : Files) :
    Files × Except Exn Unit :=
  match PairFile.pairDocument py rdmaNics files.nics files.nics' files.results with
  | .error e => (files, .error e)
  | .ok pair =>
      if disk.writesPair then ({ files with pairJson := some (.document pair) }, .ok ())
      else if disk.leavesPart then
        ({ files with pairJson := some .incomplete }, .error .osError)
      else (files, .error .osError)

/-- Replace the file of records by the stamped one, in one step. -/
def stamp (F : Type) [FloatText F] (disk : Disk) (pair : String) (files : Files) :
    Files × Except Exn Unit :=
  match readText files.results >>= PairFile.stampText F pair with
  | .error e => (files, .error e)
  | .ok text =>
      if disk.writesRecords ∧ disk.replaces then
        ({ files with results := some (.utf8 text) }, .ok ())
      else (files, .error .osError)

/-- Pair file, pair id and stamp, up to the first that raises. -/
def pairSteps (py : PairFile.Python F) (disk : Disk) (tools : Tools) (rdmaNics : String)
    (files : Files) : Files × Except Exn Unit :=
  match writePairJson py disk rdmaNics files with
  | (files, .error e) => (files, .error e)
  | (files, .ok ()) =>
      match pairId tools with
      | .error e => (files, .error e)
      | .ok pair => stamp F disk pair files

/-- The exceptions after which the pair file is removed. -/
def caught : Exn -> Bool
  | .pairError _ | .ostiaError _ | .osError | .keyError => true
  | e => e.isValueError

/-- Stamp the records when both captures are accepted and complete; true if it was done. -/
def stampPair (py : PairFile.Python F) (disk : Disk) (tools : Tools) (rdmaNics : String)
    (files : Files) : Files × Except Exn Bool :=
  if !usable F files.status then (files, .ok false)
  else
    match pairSteps py disk tools rdmaNics files with
    | (files, .ok ()) => (files, .ok true)
    | (files, .error e) =>
        if caught e then ({ files with pairJson := none }, .ok false) else (files, .error e)

/-- The pair file is there and every record carries the pair id, or neither is there and the
records are as they were. -/
def AllOrNothing (F : Type) [FloatText F] (tools : Tools) (before after : Files) : Prop :=
  (after.pairJson ≠ none ∧ exists (pair text : String) (rs : List (Value F)),
    pairId tools = .ok pair ∧ after.results = some (.utf8 text) ∧
    PairFile.records text = .ok rs ∧ forall r, r ∈ rs -> PairFile.Stamped pair r) ∨
  (after.pairJson = none ∧ after.results = before.results)

/-- Everything before the stamp succeeds, and the first field that cannot take the stamp is
there and is no object. -/
def StampRaises (py : PairFile.Python F) (disk : Disk) (tools : Tools) (rdmaNics : String)
    (files : Files) : Prop :=
  usable F files.status = true ∧ disk.writesPair = true ∧
  (exists doc, PairFile.pairDocument py rdmaNics files.nics files.nics' files.results =
    .ok doc) ∧
  (exists pair, pairId tools = .ok pair) ∧
  exists (text : String) (rs : List (Value F)), readText files.results = .ok text ∧
    PairFile.records text = .ok rs ∧ PairFile.stampBreaks rs = true

/-- Whatever ends the search for the pair id is caught. -/
theorem caught_of_pairId {tools : Tools} {e : Exn} (h : pairId tools = .error e) :
    caught e = true := by
  unfold pairId at h
  split_ifs at h
  · injection h with h
    rw [← h]
    rfl
  · split at h
    · injection h with h
      rw [← h]
      rfl
    · split_ifs at h
      · injection h with h
        rw [← h]
        rfl
      · split at h
        · injection h with h
          rw [← h]
          rfl
        · injection h with h
          rw [← h]
          rfl
        · split_ifs at h
          injection h with h
          rw [← h]
          rfl

/-- The stamp of records that are objects: all are stamped, or a field refuses it. -/
theorem stamp_cases {disk : Disk} {pair text : String} {files : Files} {rs : List (Value F)}
    (hresults : readText files.results = .ok text) (hrs : PairFile.records text = .ok rs)
    (hdict : forall r, r ∈ rs -> r.isDict = true ∧ r.Sound) :
    (exists text' out, stamp F disk pair files =
        ({ files with results := some (.utf8 text') }, .ok ()) ∧
      PairFile.records text' = .ok out ∧ (forall r : Value F, r ∈ out -> PairFile.Stamped pair r) ∧
      PairFile.stampBreaks rs = false) ∨
    (exists e, stamp F disk pair files = (files, .error e) ∧ caught e = true ∧
      PairFile.stampBreaks rs = false) ∨
    (stamp F disk pair files = (files, .error .typeError) ∧ PairFile.stampBreaks rs = true ∧
      exists r, r ∈ rs ∧ ¬ PairFile.Stamped pair r) := by
  have htext : (readText files.results >>= PairFile.stampText F pair) = (do
      let out ← rs.mapM (PairFile.stampRecord pair)
      pure (PairFile.recordsText out)) := by
    rw [hresults]
    exact PairFile.stampText_eq hrs
  unfold stamp
  rw [htext]
  rcases PairFile.stampAll_cases pair (fun r hr => (hdict r hr).1) with
    ⟨out, hout, hstamped, hsound, hfalse⟩ | ⟨herror, hfalse⟩ | ⟨herror, htrue, hnot⟩
  · rw [hout]
    have hread : PairFile.records (PairFile.recordsText out) = .ok out :=
      PairFile.records_recordsText (hsound fun r hr => (hdict r hr).2)
    by_cases hdisk : disk.writesRecords = true ∧ disk.replaces = true
    · refine Or.inl ⟨PairFile.recordsText out, out, ?_, hread, hstamped, hfalse⟩
      exact if_pos hdisk
    · exact Or.inr (Or.inl ⟨.osError, if_neg hdisk, rfl, hfalse⟩)
  · rw [herror]
    exact Or.inr (Or.inl ⟨.keyError, rfl, rfl, hfalse⟩)
  · rw [herror]
    exact Or.inr (Or.inr ⟨rfl, htrue, hnot⟩)

/-- The records that are stamped are the records that were read. -/
theorem records_unique {files : Files} {text text' : String} {rs rs' : List (Value F)}
    (hread : readText files.results = .ok text) (hrs : PairFile.records text = .ok rs)
    (hread' : readText files.results = .ok text') (hrs' : PairFile.records text' = .ok rs') :
    rs' = rs := by
  rw [hread] at hread'
  injection hread' with htext
  rw [← htext, hrs] at hrs'
  injection hrs' with hrs'
  exact hrs'.symm

/-- The stamp after the pair file was written. -/
theorem pairStamp_cases {py : PairFile.Python F} {disk : Disk} {tools : Tools}
    {rdmaNics pair : String} {files : Files} {doc : PairFile.Pair}
    (hdoc : PairFile.pairDocument py rdmaNics files.nics files.nics' files.results = .ok doc)
    (husable : usable F files.status = true) (hwrites : disk.writesPair = true)
    (hpair : pairId tools = .ok pair) :
    (exists after,
      stamp F disk pair { files with pairJson := some (.document doc) } = (after, .ok ()) ∧
      AllOrNothing F tools files after ∧ ¬ StampRaises py disk tools rdmaNics files) ∨
    (exists after e,
      stamp F disk pair { files with pairJson := some (.document doc) } = (after, .error e) ∧
      after.results = files.results ∧ (caught e = true ∨ after.pairJson = none) ∧
      ¬ StampRaises py disk tools rdmaNics files) ∨
    (exists after,
      stamp F disk pair { files with pairJson := some (.document doc) } =
        (after, .error .typeError) ∧
      ¬ AllOrNothing F tools files after ∧ StampRaises py disk tools rdmaNics files) := by
  rcases PairFile.pairDocument_records hdoc with ⟨text, rs, htext, hrs, hdict⟩
  rcases Option.eq_none_or_eq_some files.results with hresults | ⟨content, hresults⟩
  · -- Without a file of records the stamp has nothing to read.
    have hread : readText files.results = .error .osError := by
      rw [hresults]
      rfl
    refine Or.inr (Or.inl ⟨{ files with pairJson := some (.document doc) }, .osError, ?_, rfl,
      Or.inl rfl, ?_⟩)
    · unfold stamp
      rw [hread]
      rfl
    · rintro ⟨_, _, _, _, text', _, hread', _⟩
      rw [hread] at hread'
      cases hread'
  · have hread : readText files.results = .ok text := by
      rw [hresults] at htext ⊢
      exact htext
    have hnot : PairFile.stampBreaks rs = false -> ¬ StampRaises py disk tools rdmaNics files := by
      rintro hfalse ⟨_, _, _, _, text', rs', hread', hrs', hbreaks⟩
      rw [records_unique hread hrs hread' hrs', hfalse] at hbreaks
      cases hbreaks
    rcases @stamp_cases F _ disk pair text { files with pairJson := some (.document doc) } rs
        hread hrs hdict with
      ⟨text', out, hstamp, hout, hstamped, hfalse⟩ | ⟨e, hstamp, hcaught, hfalse⟩ |
      ⟨hstamp, htrue, r, hr, hunstamped⟩
    · exact Or.inl ⟨_, hstamp, Or.inl ⟨by simp, pair, text', out, hpair, rfl, hout, hstamped⟩,
        hnot hfalse⟩
    · exact Or.inr (Or.inl ⟨_, e, hstamp, rfl, Or.inl hcaught, hnot hfalse⟩)
    · refine Or.inr (Or.inr ⟨_, hstamp, ?_, husable, hwrites, ⟨doc, hdoc⟩, ⟨pair, hpair⟩, text,
        rs, hread, hrs, htrue⟩)
      rintro (⟨_, pair', text', rs', hpair', hresults', hrs', hstamped⟩ | ⟨hnone, _⟩)
      · rw [hpair] at hpair'
        injection hpair' with hpair'
        have hread' : readText files.results = .ok text' := by
          rw [show files.results = some (.utf8 text') from hresults']
          rfl
        rw [records_unique hread hrs hread' hrs', ← hpair'] at hstamped
        exact hunstamped (hstamped r hr)
      · cases hnone

/-- The ends of the three steps: stamped, refused with nothing left once the pair file is
removed, or refused by a field that is no object. -/
theorem pairSteps_cases (py : PairFile.Python F) (disk : Disk) (tools : Tools)
    (rdmaNics : String) {files : Files} (hfresh : files.pairJson = none)
    (husable : usable F files.status = true) :
    (exists after, pairSteps py disk tools rdmaNics files = (after, .ok ()) ∧
      AllOrNothing F tools files after ∧ ¬ StampRaises py disk tools rdmaNics files) ∨
    (exists after e, pairSteps py disk tools rdmaNics files = (after, .error e) ∧
      after.results = files.results ∧ (caught e = true ∨ after.pairJson = none) ∧
      ¬ StampRaises py disk tools rdmaNics files) ∨
    (exists after, pairSteps py disk tools rdmaNics files = (after, .error .typeError) ∧
      ¬ AllOrNothing F tools files after ∧ StampRaises py disk tools rdmaNics files) := by
  unfold pairSteps writePairJson
  cases hdoc : PairFile.pairDocument py rdmaNics files.nics files.nics' files.results with
  | error e =>
      refine Or.inr (Or.inl ⟨files, e, rfl, rfl, Or.inr hfresh, ?_⟩)
      rintro ⟨_, _, ⟨doc, hok⟩, _⟩
      rw [hdoc] at hok
      cases hok
  | ok doc =>
      by_cases hwrites : disk.writesPair = true
      · simp only [hwrites, if_true]
        cases hpair : pairId tools with
        | error e =>
            refine Or.inr (Or.inl ⟨_, e, rfl, rfl, Or.inl (caught_of_pairId hpair), ?_⟩)
            rintro ⟨_, _, _, ⟨pair, hok⟩, _⟩
            rw [hpair] at hok
            cases hok
        | ok pair =>
            exact pairStamp_cases hdoc husable hwrites hpair
      · have hnot : ¬ StampRaises py disk tools rdmaNics files := fun h => hwrites h.2.1
        simp only [hwrites]
        by_cases hleaves : disk.leavesPart = true
        · simp only [hleaves, if_true]
          exact Or.inr (Or.inl ⟨_, .osError, rfl, rfl, Or.inl rfl, hnot⟩)
        · simp only [hleaves]
          exact Or.inr (Or.inl ⟨_, .osError, rfl, rfl, Or.inl rfl, hnot⟩)

/-- An exception of the stamp that is not caught leaves the files as they are then. -/
theorem stampPair_of_stamp_error {py : PairFile.Python F} {disk : Disk} {tools : Tools}
    {rdmaNics pair : String} {files after : Files} {doc : PairFile.Pair} {e : Exn}
    (husable : usable F files.status = true)
    (hdoc : PairFile.pairDocument py rdmaNics files.nics files.nics' files.results = .ok doc)
    (hwrites : disk.writesPair = true) (hpair : pairId tools = .ok pair)
    (hstamp : stamp F disk pair { files with pairJson := some (.document doc) } =
      (after, .error e)) (hcaught : caught e = false) :
    stampPair py disk tools rdmaNics files = (after, .error e) := by
  unfold stampPair pairSteps writePairJson
  simp only [husable, hdoc, hwrites, hpair, hstamp, hcaught, if_true, Bool.not_true,
    Bool.false_eq_true, if_false]

/-- Ports are numbers of one digit, and no record here measures a rail. -/
def smallPython : PairFile.Python Half where
  int s :=
    match s.toList with
    | [c] => if c.isDigit then some (c.toNat - '0'.toNat) else none
    | _ => none
  median _ := .error .typeError
  mbps _ := .error .typeError

def goodDisk : Disk where
  writesPair := true
  leavesPart := false
  writesRecords := true
  replaces := true

def goodTools : Tools where
  environment := true
  build := .exited 0 (.utf8 "")
  topoId := .exited 0 (.utf8 "topo1:ab\n")

/-- The status of two captures that were accepted. -/
def acceptedStatus : Value Half :=
  .dict [("node-0", .dict [("result", .str "accepted"), ("status", .str "complete")]),
    ("node-1", .dict [("result", .str "accepted"), ("status", .str "complete")])]

/-- The NICs of a machine with one Ethernet NIC. -/
def ethernetNics : Value Half :=
  .dict [("schema", .int 1), ("rdma_probe", .str "ok"),
    ("nics", .list [.dict [("bus_id", .str "0000:01:00.0"), ("driver", .str "ixgbe"),
      ("link_layer", .str "ethernet"), ("max_pcie_gen", .int 3), ("max_pcie_width", .int 8),
      ("numa_node", .int (-1)), ("port_speed_mbps", .int 10000)]]),
    ("rdma", .list [])]

/-- Two captures that were accepted, and a file of one record. -/
def twoCaptures (record : Value Half) : Files where
  status := some (.utf8 (dumps acceptedStatus))
  nics := some (.utf8 (dumps ethernetNics))
  nics' := some (.utf8 (dumps ethernetNics))
  results := some (.utf8 (PairFile.recordsText [record]))
  pairJson := none

def nullCompat : Value Half := .dict [("bench", .str "read"), ("compat", .none)]

theorem nullCompat_sound : nullCompat.Sound := by
  simp [nullCompat, Value.Sound, Value.SoundFields]

theorem ethernetNics_sound : ethernetNics.Sound := by
  simp [ethernetNics, Value.Sound, Value.SoundFields, Value.SoundItems, Value.maxDigits]
  decide

/-- The status that was written is read back. -/
theorem readStatus_dumps {v : Value F} (hsound : v.Sound) :
    readStatus (some (.utf8 (dumps v))) = v := by
  unfold readStatus
  rw [PairFile.readText_dumps hsound]

/-- NICs that were written are read back. -/
theorem readNics_dumps {v : Value F} (hsound : v.Sound) (node : String) :
    PairFile.readNics node (some (.utf8 (dumps v))) = .ok v := by
  unfold PairFile.readNics
  rw [PairFile.readText_dumps hsound]

theorem usable_twoCaptures (record : Value Half) :
    usable Half (twoCaptures record).status = true := by
  have hsound : acceptedStatus.Sound := by
    simp [acceptedStatus, Value.Sound, Value.SoundFields]
  have hread : (readStatus (twoCaptures record).status : Value Half) = acceptedStatus :=
    readStatus_dumps hsound
  unfold usable
  rw [hread]
  rfl

/-- Without rails the pair is a tcp pair; the record measures nothing. -/
theorem pairDocument_twoCaptures {record : Value Half} (hsound : record.Sound)
    (hunit : PairFile.getOr record "unit" .none = .ok .none) :
    PairFile.pairDocument smallPython "" (twoCaptures record).nics (twoCaptures record).nics'
      (twoCaptures record).results = .ok ⟨none, [], []⟩ := by
  have hone : PairFile.measuredOne smallPython 0 (dumps record) = .ok none := by
    refine Fallible.bind_eq_ok.mpr ⟨record, loads_dumps hsound, ?_⟩
    exact Fallible.bind_eq_ok.mpr ⟨.none, hunit, rfl⟩
  have hmeasured : PairFile.measured smallPython (twoCaptures record).results 0 = .ok [] := by
    refine Fallible.bind_eq_ok.mpr ⟨PairFile.recordsText [record], rfl, ?_⟩
    rw [PairFile.recordLines_recordsText]
    refine Fallible.bind_eq_ok.mpr ⟨[none], ?_, by simp [pure, Except.pure]⟩
    rw [Fallible.mapM_eq_ok]
    exact List.Forall₂.cons hone List.Forall₂.nil
  refine Fallible.bind_eq_ok.mpr ⟨[], rfl, ?_⟩
  refine Fallible.bind_eq_ok.mpr ⟨_, readNics_dumps ethernetNics_sound "node-0", ?_⟩
  refine Fallible.bind_eq_ok.mpr ⟨_, readNics_dumps ethernetNics_sound "node-1", ?_⟩
  refine Fallible.bind_eq_ok.mpr ⟨[], rfl, ?_⟩
  refine Fallible.bind_eq_ok.mpr ⟨none, rfl, ?_⟩
  have hlength : ([] : List ((Nat × PairFile.LinkClass) × (Nat × PairFile.LinkClass))).length = 0 :=
    rfl
  rw [hlength, hmeasured]
  rfl

end Gate
end Dev
end Ostia

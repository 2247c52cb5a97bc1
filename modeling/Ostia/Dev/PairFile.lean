import Mathlib.Data.List.Dedup
import Ostia.Dev.JsonText
import Ostia.Dev.Text
import Ostia.Foundation.Fallible

/-!
# Pair files and the pair id of records

A gate on two machines writes one file about the pair: its rails, from the profile and
each machine's list of NICs, and the bandwidths that the records give.  The id of the
pair is then stamped on every record of the run.

The rounding of a median and the reading of a port number are parameters.
-/

namespace Ostia
namespace Dev

open Foundation
open JsonText
open Text

/-!
## Files
-/

/-- The bytes of a file, by their text where they are UTF-8. -/
inductive Content where
  | utf8 (text : String)
  | other (bytes : List UInt8)
deriving DecidableEq

/-- The text of a file; a file that is missing has none. -/
def readText : Option Content -> Except Exn String
  | none => .error .osError
  | some (.utf8 text) => .ok text
  | some (.other _) => .error .unicodeDecodeError

namespace PairFile

variable {F : Type} [FloatText F]

/-- What the pair file takes from Python: numbers from texts, medians and rounding. -/
structure Python (F : Type) where
  int : String -> Option Int
  median : Value F -> Except Exn (Value F)
  /-- A value in GB/s, times 1000 and rounded. -/
  mbps : Value F -> Except Exn Int

/-- The lines of a file of records that hold one. -/
def recordLines (text : String) : List String := (splitlines text).filter fun l => !isBlank l

/-- The records of a file, one a line. -/
def records (text : String) : Except Exn (List (Value F)) := (recordLines text).mapM loads

/-- The value under a key, or a default. -/
def getOr (v : Value F) (key : String) (default : Value F) : Except Exn (Value F) := do
  pure ((← v.get key).getD default)

/-- The items of a loop over a value. -/
def iterate : Value F -> Except Exn (List (Value F))
  | .list items => .ok items
  | .dict fields => .ok (fields.map fun e => .str e.1)
  | .str s => .ok (s.toList.map fun c => .str (String.singleton c))
  | _ => .error .typeError

/-!
## Rails
-/

inductive LinkClass where
  | infiniband
  | roce
  | efa
deriving DecidableEq, Repr

def nodeDirs : List String := ["node-0", "node-1"]

/-- The devices and ports of a profile, separated by commas. -/
def rails (py : Python F) (rdmaNics : String) : Except Exn (List (String × Int)) :=
  (((rdmaNics.toList.splitOn ',').map fun s => strip (String.ofList s)).filter
    fun s => s ≠ "").mapM fun item =>
      let device := String.ofList (item.toList.takeWhile (· != ':'))
      let port := String.ofList ((item.toList.dropWhile (· != ':')).drop 1)
      match py.int (if port = "" then "1" else port) with
      | some n => .ok (device, n)
      | none => .error (.pairError "rdma_nics names a port that is not a number")

/-- The class of the link of a rail's end. -/
def linkClass (nic port : Value F) (node : String) (rail : Nat) : Except Exn LinkClass := do
  if !(← getOr nic "driver" .none).differs (.str "efa") then pure .efa
  else
    let layer ← getOr port "link_layer" .none
    if layer.eq (.str "infiniband") then pure .infiniband
    else if layer.eq (.str "ethernet") then pure .roce
    else throw (.pairError ("rail " ++ toString rail ++ ": " ++ node ++
      "'s RDMA port has an unknown link layer"))

/-- The NIC's index in the list of a machine, and its link class. -/
def railEnd (nics : Value F) (device : String) (port : Int) (node : String) (rail : Nat) :
    Except Exn (Nat × LinkClass) := do
  let ports ← iterate (← getOr nics "rdma" (.list []))
  let ends ← ports.filterM fun r => do
    if (← getOr r "device" .none).differs (.str device) then pure false
    else pure (!(← getOr r "port" .none).differs (.int port))
  match ends with
  | [rdma] => do
      let bus ← getOr rdma "bus_id" .none
      let listed ← iterate (← getOr nics "nics" (.list []))
      let index ← listed.zipIdx.filterM fun n => do
        pure (!(← getOr n.1 "bus_id" .none).differs bus)
      match index with
      | [(nic, i)] => do
          let cls ← linkClass nic rdma node rail
          pure (i, cls)
      | _ => throw (.pairError ("rail " ++ toString rail ++ ": " ++ node ++
          "'s nics.json has no NIC for the rail's RDMA port"))
  | _ => throw (.pairError ("rail " ++ toString rail ++ ": " ++ node ++
      "'s nics.json lists its RDMA port " ++ toString ends.length ++ " times"))

/-- The two ends of a rail, with their classes. -/
def railEntry (nics nics' : Value F) (device : String) (port : Int) (rail : Nat) :
    Except Exn ((Nat × LinkClass) × (Nat × LinkClass)) := do
  let left ← railEnd nics device port "node-0" rail
  let right ← railEnd nics' device port "node-1" rail
  pure (left, right)

/-!
## Measured bandwidths
-/

structure Measured where
  rail : Nat
  bwMbps : Int
  test : String
deriving DecidableEq, Repr

/-- The rail that a path of dual_link names; a list or a dictionary is no key. -/
def pathRail : Value F -> Except Exn (Option Nat)
  | .str "a" => .ok (some 0)
  | .str "b" => .ok (some 1)
  | .list _ => .error .typeError
  | .dict _ => .error .typeError
  | _ => .ok none

/-- The benchmark of a record and the rail it measures. -/
def measuredRail (r : Value F) (rails : Nat) : Except Exn (Option (Nat × String)) := do
  let params ← getOr r "params" (.dict [])
  match ← r.item "bench" with
  | .str bench =>
      if bench = "dual_link" then
        if (← getOr params "mode" .none).differs (.str "rails") then pure none
        else
          let rail ← pathRail (← getOr params "path" .none)
          pure (rail.map fun i => (i, bench))
      else if bench ∈ ["rdma_put", "gdr_stream", "tcp_put"] ∧ rails = 1 then
        pure (some (0, bench))
      else pure none
  | _ => pure none

/-- The median of a record, computed where it is not given. -/
def medianOf (py : Python F) (r : Value F) : Except Exn (Value F) := do
  match ← getOr r "median" .none with
  | .none => py.median (← r.item "samples")
  | v => pure v

/-- What a record measures, where it measures a rail. -/
def measuredOne (py : Python F) (rails : Nat) (line : String) :
    Except Exn (Option Measured) := do
  let r ← loads line
  if (← getOr r "unit" .none).differs (.str "GB/s") then pure none
  else if !(← getOr r "samples" .none).truthy then pure none
  else
    match ← measuredRail r rails with
    | none => pure none
    | some (rail, test) =>
        if rails ≤ rail then pure none
        else
          let bw ← py.mbps (← medianOf py r)
          pure (some ⟨rail, bw, test⟩)

/-- The text of a file of records, empty when there is no file. -/
def resultsText : Option Content -> Except Exn String
  | none => .ok ""
  | some content => readText (some content)

/-- The bandwidths of the records of a run. -/
def measured (py : Python F) (results : Option Content) (rails : Nat) :
    Except Exn (List Measured) := do
  let text ← resultsText results
  let found ← (recordLines text).mapM (measuredOne py rails)
  pure ((found.filterMap id).mergeSort fun a b =>
    decide (a.rail < b.rail) || (a.rail == b.rail && decide (a.test ≤ b.test)))

/-!
## The pair file
-/

/-- The file of a pair, without its constant fields; a pair without rails is a tcp pair. -/
structure Pair where
  linkClass : Option LinkClass
  rails : List (Nat × Nat)
  measured : List Measured
deriving DecidableEq, Repr

/-- The list of NICs of a machine. -/
def readNics (node : String) (file : Option Content) : Except Exn (Value F) :=
  match readText file >>= loads with
  | .ok v => .ok v
  | .error e =>
      if e = .osError ∨ e.isValueError then
        .error (.pairError (node ++ "'s nics.json cannot be read"))
      else .error e

/-- The classes that a list of ends has; a rail's two ends count alike. -/
def oneClass (entries : List ((Nat × LinkClass) × (Nat × LinkClass))) :
    Except Exn (Option LinkClass) :=
  match (entries.flatMap fun e => [e.1.2, e.2.2]).dedup with
  | [] => .ok none
  | [c] => .ok (some c)
  | _ => .error (.pairError "the rails' NICs have different link classes")

/-- The document that is written. -/
def pairDocument (py : Python F) (rdmaNics : String) (nics nics' results : Option Content) :
    Except Exn Pair := do
  let rails ← rails py rdmaNics
  let left : Value F ← readNics "node-0" nics
  let right ← readNics "node-1" nics'
  let entries ← rails.zipIdx.mapM fun r => railEntry left right r.1.1 r.1.2 r.2
  let cls ← oneClass entries
  match measured py results entries.length with
  | .ok found => pure ⟨cls, entries.map fun e => (e.1.1, e.2.1), found⟩
  | .error e =>
      if e = .osError ∨ e.isValueError ∨ e = .keyError ∨ e = .typeError then
        throw (.pairError "the run's results.jsonl cannot be read")
      else throw e

/-!
## Stamping
-/

/-- An assignment through two subscripts. -/
def setField (r : Value F) (key field text : String) : Except Exn (Value F) := do
  let inner ← (← r.item key).setItem field (.str text)
  r.setItem key inner

/-- A record with the pair id as its topology. -/
def stampRecord (pair : String) (r : Value F) : Except Exn (Value F) := do
  let r ← setField r "compat" "topology" pair
  setField r "provenance" "topology_source" "gate"

/-- The lines of a list of records. -/
def recordsText (rs : List (Value F)) : String :=
  String.join (rs.map fun r => dumps r ++ "\n")

/-- The text of the stamped file; what was read and stamped can always be written. -/
def stampText (F : Type) [FloatText F] (pair : String) (text : String) : Except Exn String := do
  let rs : List (Value F) ← (recordLines text).mapM fun line => loads line >>= stampRecord pair
  pure (recordsText rs)

/-!
## What a record needs for the stamp
-/

/-- What a record has under a key. -/
inductive Shape where
  | missing
  | object
  | other
deriving DecidableEq

def shape (r : Value F) (key : String) : Shape :=
  match r.item key with
  | .ok (.dict _) => .object
  | .ok _ => .other
  | .error _ => .missing

/-- The first field that cannot take the stamp is there, and is no object. -/
def stampBreaks : List (Value F) -> Bool
  | [] => false
  | r :: rest =>
      match shape r "compat" with
      | .missing => false
      | .other => true
      | .object =>
          match shape r "provenance" with
          | .missing => false
          | .other => true
          | .object => stampBreaks rest

/-- A record that carries the pair id and the mark of the gate. -/
def Stamped (pair : String) (r : Value F) : Prop :=
  (r.item "compat" >>= fun compat => compat.item "topology") = .ok (.str pair) ∧
    (r.item "provenance" >>= fun provenance => provenance.item "topology_source") =
      .ok (.str "gate")

omit [FloatText F] in
/-- A field that is no object does not carry the stamp. -/
theorem not_stamped_of_other {pair : String} {r : Value F}
    (h : shape r "compat" = .other ∨ shape r "provenance" = .other) : ¬ Stamped pair r := by
  have hitem : forall key key' : String, forall v : Value F, shape r key = .other ->
      (r.item key >>= fun w => w.item key') ≠ .ok v := by
    intro key key' v hshape hok
    rcases Fallible.bind_eq_ok.mp hok with ⟨w, hw, hv⟩
    rw [shape, hw] at hshape
    cases w with
    | dict fields => cases hshape
    | _ => cases hv
  rintro ⟨hcompat, hprovenance⟩
  rcases h with h | h
  · exact hitem _ _ _ h hcompat
  · exact hitem _ _ _ h hprovenance

section

omit [FloatText F]

/-- An assignment to a field of an object under a key: done, or refused. -/
theorem setField_cases {fs : List (String × Value F)} (key field text : String) :
    (shape (.dict fs) key = .missing ∧ setField (.dict fs) key field text = .error .keyError) ∨
    (shape (.dict fs) key = .other ∧ setField (.dict fs) key field text = .error .typeError) ∨
    (shape (.dict fs) key = .object ∧ exists v : Value F,
      setField (.dict fs) key field text = .ok (.dict (Value.setKey key v fs)) ∧
      v.item field = .ok (.str text) ∧ ((Value.dict fs).Sound -> v.Sound)) := by
  cases hlookup : Value.lookup key fs with
  | none =>
      have hitem : (Value.dict fs).item key = .error .keyError := by simp [Value.item, hlookup]
      exact Or.inl ⟨by simp [shape, hitem], by simp [setField, hitem, bind, Except.bind]⟩
  | some v =>
      have hitem : (Value.dict fs).item key = .ok v := by simp [Value.item, hlookup]
      cases v with
      | dict cs =>
          refine Or.inr (Or.inr ⟨by simp [shape, hitem],
            .dict (Value.setKey field (.str text) cs), ?_, ?_, ?_⟩)
          · simp [setField, hitem, bind, Except.bind, Value.setItem]
          · simp [Value.item]
          · intro hsound
            have hinner : (Value.dict cs).Sound :=
              Value.soundFields_mem hsound.2 (Value.mem_of_lookup hlookup)
            have hset := setKey_sound hinner.1 hinner.2 (v := .str text) True.intro field
            exact ⟨hset.1, hset.2.1⟩
      | _ =>
          exact Or.inr (Or.inl ⟨by simp [shape, hitem],
            by simp [setField, hitem, bind, Except.bind, Value.setItem]⟩)

/-- A key keeps what it has when another is assigned. -/
theorem item_setKey_of_ne {fs : List (String × Value F)} {key key' : String} (v : Value F)
    (h : key ≠ key') :
    (Value.dict (Value.setKey key v fs)).item key' = (Value.dict fs).item key' := by
  simp only [Value.item, Value.lookup_setKey_of_ne h]

/-- The stamp of an object: done, or refused at a field that is missing or no object. -/
theorem stampRecord_cases (pair : String) {r : Value F} (hr : r.isDict = true) :
    (exists r', stampRecord pair r = .ok r' ∧ Stamped pair r' ∧ (r.Sound -> r'.Sound) ∧
      forall rest, stampBreaks (r :: rest) = stampBreaks rest) ∨
    (stampRecord pair r = .error .keyError ∧ forall rest, stampBreaks (r :: rest) = false) ∨
    (stampRecord pair r = .error .typeError ∧ ¬ Stamped pair r ∧
      forall rest, stampBreaks (r :: rest) = true) := by
  cases r with
  | dict fs =>
      rcases @setField_cases F fs "compat" "topology" pair with
        ⟨hshape, hset⟩ | ⟨hshape, hset⟩ | ⟨hshape, compat, hset, htopology, hcompat⟩
      · refine Or.inr (Or.inl ⟨by rw [stampRecord, hset]; rfl, fun rest => ?_⟩)
        rw [stampBreaks, hshape]
      · refine Or.inr (Or.inr ⟨by rw [stampRecord, hset]; rfl,
          not_stamped_of_other (Or.inl hshape), fun rest => ?_⟩)
        rw [stampBreaks, hshape]
      · have hkeep : shape (.dict (Value.setKey "compat" compat fs)) "provenance" =
            shape (.dict fs) "provenance" := by
          rw [shape, shape, item_setKey_of_ne compat (by decide)]
        have hstamp : stampRecord pair (.dict fs) =
            setField (.dict (Value.setKey "compat" compat fs)) "provenance" "topology_source"
              "gate" := by
          rw [stampRecord, hset]
          rfl
        rcases @setField_cases F (Value.setKey "compat" compat fs) "provenance"
            "topology_source" "gate" with
          ⟨hshape', hset'⟩ | ⟨hshape', hset'⟩ | ⟨hshape', prov, hset', hsource, hprov⟩
        · rw [hkeep] at hshape'
          refine Or.inr (Or.inl ⟨by rw [hstamp, hset'], fun rest => ?_⟩)
          rw [stampBreaks, hshape]
          simp only [hshape']
        · rw [hkeep] at hshape'
          refine Or.inr (Or.inr ⟨by rw [hstamp, hset'],
            not_stamped_of_other (Or.inr hshape'), fun rest => ?_⟩)
          rw [stampBreaks, hshape]
          simp only [hshape']
        · rw [hkeep] at hshape'
          refine Or.inl ⟨_, hstamp.trans hset', ⟨?_, ?_⟩, ?_, fun rest => ?_⟩
          · rw [item_setKey_of_ne prov (by decide)]
            simp only [Value.item, Value.lookup_setKey_self]
            exact htopology
          · simp only [Value.item, Value.lookup_setKey_self]
            exact hsource
          · intro hsound
            have hfirst := setKey_sound hsound.1 hsound.2 (hcompat hsound) "compat"
            have hsecond := setKey_sound hfirst.1 hfirst.2.1 (hprov ⟨hfirst.1, hfirst.2.1⟩)
              "provenance"
            exact ⟨hsecond.1, hsecond.2.1⟩
          · rw [stampBreaks, hshape]
            simp only [hshape']
  | _ => cases hr

/-- The stamp of every record, up to the first that is refused. -/
theorem stampAll_cases (pair : String) {rs : List (Value F)}
    (h : forall r, r ∈ rs -> r.isDict = true) :
    (exists out, rs.mapM (stampRecord pair) = .ok out ∧
      (forall r, r ∈ out -> Stamped pair r) ∧
      ((forall r, r ∈ rs -> r.Sound) -> forall r, r ∈ out -> r.Sound) ∧
      stampBreaks rs = false) ∨
    (rs.mapM (stampRecord pair) = .error .keyError ∧ stampBreaks rs = false) ∨
    (rs.mapM (stampRecord pair) = .error .typeError ∧ stampBreaks rs = true ∧
      exists r, r ∈ rs ∧ ¬ Stamped pair r) := by
  induction rs with
  | nil =>
      refine Or.inl ⟨[], rfl, ?_, ?_, rfl⟩
      · intro r hr
        cases hr
      · intro _ r hr
        cases hr
  | cons r rs ih =>
      have hrest := ih fun r' hr' => h r' (List.mem_cons_of_mem r hr')
      rcases stampRecord_cases pair (h r List.mem_cons_self) with
        ⟨r', hstamp, hstamped, hsound, hbreaks⟩ | ⟨hstamp, hbreaks⟩ | ⟨hstamp, hnot, hbreaks⟩
      · rw [hbreaks, List.mapM_cons, hstamp]
        rcases hrest with ⟨out, hout, hall, hallSound, hfalse⟩ | ⟨herror, hfalse⟩ |
          ⟨herror, htrue, r0, hr0, hnot⟩
        · refine Or.inl ⟨r' :: out, by rw [hout]; rfl, ?_, ?_, hfalse⟩
          · exact List.forall_mem_cons.mpr ⟨hstamped, hall⟩
          · intro hsounds
            rcases List.forall_mem_cons.mp hsounds with ⟨hhead, htail⟩
            exact List.forall_mem_cons.mpr ⟨hsound hhead, hallSound htail⟩
        · exact Or.inr (Or.inl ⟨by rw [herror]; rfl, hfalse⟩)
        · exact Or.inr (Or.inr ⟨by rw [herror]; rfl, htrue, r0, List.mem_cons_of_mem r hr0, hnot⟩)
      · exact Or.inr (Or.inl ⟨by rw [List.mapM_cons, hstamp]; rfl, hbreaks rs⟩)
      · exact Or.inr (Or.inr ⟨by rw [List.mapM_cons, hstamp]; rfl, hbreaks rs, r,
          List.mem_cons_self, hnot⟩)

end

/-!
## The stamped file
-/

theorem stampText_eq {pair text : String} {rs : List (Value F)} (h : records text = .ok rs) :
    stampText F pair text = (do
      let out ← rs.mapM (stampRecord pair)
      pure (recordsText out)) := by
  unfold stampText
  rw [Fallible.mapM_bind h]

theorem isBoundary_of_printable {c : Char} (h : 0x20 ≤ c.toNat ∧ c.toNat ≤ 0x7e) :
    isBoundary c = false := by
  unfold isBoundary
  rw [← Bool.not_eq_true, List.contains_iff_mem]
  intro hc
  simp only [List.mem_cons, List.not_mem_nil, or_false] at hc
  rcases hc with rfl | rfl | rfl | rfl | rfl | rfl | rfl | rfl | rfl | rfl <;> revert h <;> decide

/-- A written record is a line of its own. -/
theorem dumps_line (v : Value F) :
    (forall c, c ∈ (dumps v).toList -> isBoundary c = false) ∧ isBlank (dumps v) = false := by
  have htext : (dumps v).toList = text v := String.toList_ofList
  constructor
  · rw [htext]
    intro c hc
    exact isBoundary_of_printable (text_printable v c hc)
  · rcases text_head v with ⟨c, t, hct, hc, _⟩
    have hprintable := text_printable v c (by rw [hct]; exact List.mem_cons_self)
    have hspace : Text.isSpace c = false := by
      have hne : c.toNat ≠ 32 := by
        intro heq
        rw [← Char.ofNat_toNat c, heq] at hc
        cases hc
      unfold Text.isSpace
      simp only [Bool.or_eq_false_iff, Bool.and_eq_false_iff, decide_eq_false_iff_not,
        beq_eq_false_iff_ne]
      omega
    unfold isBlank
    rw [htext, hct, List.all_cons, hspace, Bool.false_and]

theorem recordLines_recordsText (rs : List (Value F)) :
    recordLines (recordsText rs) = rs.map dumps := by
  have htext : (recordsText rs).toList =
      (rs.map fun r => (dumps r).toList).flatMap (fun l => l ++ ['\n']) ++ [] := by
    unfold recordsText
    rw [String.toList_join, List.append_nil]
    simp [List.flatMap, Function.comp_def]
  unfold recordLines splitlines
  rw [htext, linesFrom_lines (by decide)]
  · rw [linesFrom, if_pos rfl, List.append_nil, List.map_map]
    have hid : (rs.map (String.ofList ∘ fun r => (dumps r).toList)) = rs.map dumps :=
      List.map_congr_left fun r _ => String.ofList_toList
    rw [hid]
    refine List.filter_eq_self.mpr ?_
    intro l hl
    rcases List.mem_map.mp hl with ⟨r, _, rfl⟩
    rw [(dumps_line r).2]
    rfl
  · intro l hl
    rcases List.mem_map.mp hl with ⟨r, _, rfl⟩
    exact (dumps_line r).1

/-- Written records are read back. -/
theorem records_recordsText {rs : List (Value F)} (h : forall r, r ∈ rs -> r.Sound) :
    records (recordsText rs) = .ok rs := by
  unfold records
  rw [recordLines_recordsText, Fallible.mapM_eq_ok, List.forall₂_map_left_iff,
    List.forall₂_same]
  intro r hr
  exact loads_dumps (h r hr)

theorem isBlank_recordsText (r : Value F) (rs : List (Value F)) :
    isBlank (recordsText (r :: rs)) = false := by
  have htext : (recordsText (r :: rs)).toList =
      (dumps r).toList ++ ('\n' :: (recordsText rs).toList) := by
    unfold recordsText
    rw [String.toList_join, String.toList_join]
    simp
  have hline := (dumps_line r).2
  unfold isBlank at hline ⊢
  rw [htext, List.all_append, hline, Bool.false_and]

/-- A written document is read back. -/
theorem readText_dumps {v : Value F} (h : v.Sound) :
    (readText (some (.utf8 (dumps v))) >>= loads) = .ok v :=
  loads_dumps h

/-- The bandwidths were read from records that are objects. -/
theorem measured_records {py : Python F} {results : Option Content} {n : Nat}
    {found : List Measured} (h : measured py results n = .ok found) :
    exists text rs, resultsText results = .ok text ∧ records text = .ok rs ∧
      forall r : Value F, r ∈ rs -> r.isDict = true ∧ r.Sound := by
  unfold measured at h
  rcases Fallible.bind_eq_ok.mp h with ⟨text, htext, h⟩
  rcases Fallible.bind_eq_ok.mp h with ⟨found', hfound, h⟩
  refine ⟨text, ?_⟩
  have hone : forall line, line ∈ recordLines text -> exists r : Value F,
      loads line = .ok r ∧ r.isDict = true := by
    intro line hline
    rcases Fallible.forall₂_mem_left (Fallible.mapM_eq_ok.mp hfound) hline with ⟨m, _, hm⟩
    unfold measuredOne at hm
    rcases Fallible.bind_eq_ok.mp hm with ⟨r, hr, hm⟩
    rcases Fallible.bind_eq_ok.mp hm with ⟨unit, hunit, _⟩
    refine ⟨r, hr, ?_⟩
    cases r with
    | dict fields => rfl
    | _ => cases hunit
  rcases Fallible.exists_mapM_eq_ok (fun line hline => (hone line hline).imp fun r hr => hr.1)
    with ⟨rs, hrs⟩
  refine ⟨rs, htext, hrs, ?_⟩
  intro r hr
  rcases Fallible.forall₂_mem_right (Fallible.mapM_eq_ok.mp hrs) hr with ⟨line, hline, hload⟩
  rcases hone line hline with ⟨r', hload', hdict⟩
  rw [hload] at hload'
  injection hload' with heq
  rw [heq]
  exact ⟨hdict, heq ▸ loads_sound hload⟩

theorem pairDocument_records {py : Python F} {rdmaNics : String}
    {nics nics' results : Option Content} {doc : Pair}
    (h : pairDocument py rdmaNics nics nics' results = .ok doc) :
    exists text rs, resultsText results = .ok text ∧ records text = .ok rs ∧
      forall r : Value F, r ∈ rs -> r.isDict = true ∧ r.Sound := by
  unfold pairDocument at h
  rcases Fallible.bind_eq_ok.mp h with ⟨rails, _, h⟩
  rcases Fallible.bind_eq_ok.mp h with ⟨left, _, h⟩
  rcases Fallible.bind_eq_ok.mp h with ⟨right, _, h⟩
  rcases Fallible.bind_eq_ok.mp h with ⟨entries, _, h⟩
  rcases Fallible.bind_eq_ok.mp h with ⟨cls, _, h⟩
  split at h
  · rename_i found hfound
    exact measured_records hfound
  · split_ifs at h

end PairFile
end Dev
end Ostia

import Ostia.Capture.RawSet
import Ostia.Foundation.Sorting
import Ostia.Foundation.WordSearch

/-!
# The leak search

The lines of the output files are searched for the raw identifiers through an index
of their needles.  The reference matcher says for one entry and one line whether the
entry matches; the search reports a line exactly when some entry matches it.
-/

namespace Ostia
namespace Capture

open Bytes
open Foundation

/-!
## The reference matcher
-/

/-- Both bytes at a place of a text are token characters. -/
def CutsToken (text : Bytes) (i : Nat) : Prop :=
  exists a b, 0 < i ∧ text[i - 1]? = some a ∧ text[i]? = some b ∧
    isTokenChar a = true ∧ isTokenChar b = true

/-- When a line matches an entry, by its mode. -/
def RawEntry.Matches (e : RawEntry) (line : Bytes) : Prop :=
  match e.mode with
  | .hex => e.needle <:+: normalisedHex line
  | .token =>
      if allTokenChars e.needle then
        exists i run, MaximalRun isTokenChar line i run ∧ lowered run = lowered e.needle
      else
        exists i, OccursAt e.needle (lowered line) i ∧ ¬ CutsToken (lowered line) i ∧
          ¬ CutsToken (lowered line) (i + e.needle.length)

def withoutReturn (line : Bytes) : Bytes :=
  if line.getLast? = some '\r'.toUInt8 then line.dropLast else line

/-- The lines of a text: a line feed ends a line, the last one may have none. -/
def textLines (text : Bytes) : List Bytes :=
  let parts := text.splitOn '\n'.toUInt8
  (if parts.getLast? = some [] then parts.dropLast else parts).map withoutReturn

/-!
## The index
-/

structure Index where
  hex : LengthTable UInt8 IdKind
  single : WordMap UInt8 IdKind
  multi : LengthTable UInt8 IdKind

def Index.empty : Index := ⟨LengthTable.empty, [], LengthTable.empty⟩

def Index.put (index : Index) (entry : RawEntry) : Index :=
  match entry.mode with
  | .hex => { index with hex := index.hex.emplace entry.needle entry.kind }
  | .token =>
      if allTokenChars entry.needle then
        { index with single := WordMap.emplace index.single entry.needle entry.kind }
      else { index with multi := index.multi.emplace entry.needle entry.kind }

def buildIndex (raw : RawSet) : Index := raw.entries.foldl Index.put Index.empty

/-!
## One line
-/

structure Hit where
  offset : Nat
  kind : IdKind

/-- Buffers that are used again for each line. -/
structure Scratch where
  norm : Bytes
  origin : List Nat
  low : Bytes

def Scratch.empty : Scratch := ⟨[], [], []⟩

def Scratch.push (s : Scratch) (c : UInt8 × Nat) : Scratch :=
  if isSeparator c.1 then s
  else { s with norm := s.norm ++ [lower c.1], origin := s.origin ++ [c.2] }

def scanHex (index : Index) (line : Bytes) (s : Scratch) (hits : List Hit) :
    Scratch × List Hit :=
  let s := line.zipIdx.foldl Scratch.push { s with norm := [], origin := [] }
  (s, hits ++ (index.hex.hits s.norm).map fun h => ⟨s.origin.getD h.1 0, h.2.2⟩)

/-- The window does not start inside a token. -/
def openOk (low : Bytes) (i : Nat) (window : Bytes) : Bool :=
  !(window.head?.any isTokenChar) || i == 0 || !(low[i - 1]?.any isTokenChar)

/-- The window does not end inside a token. -/
def closeOk (low : Bytes) (i : Nat) (window : Bytes) : Bool :=
  !(window.getLast?.any isTokenChar) || i + window.length == low.length ||
    !(low[i + window.length]?.any isTokenChar)

def scanTokens (index : Index) (line : Bytes) (s : Scratch) (hits : List Hit) :
    Scratch × List Hit :=
  let s := { s with low := lowered line }
  let hits :=
    if index.single.isEmpty then hits
    else
      hits ++ (runs isTokenChar s.low).filterMap fun run =>
        (List.lookup run.2 index.single).map fun kind => ⟨run.1, kind⟩
  (s, hits ++ (index.multi.hits s.low).filterMap fun h =>
    if openOk s.low h.1 h.2.1 && closeOk s.low h.1 h.2.1 then some ⟨h.1, h.2.2⟩ else none)

def scan (index : Index) (line : Bytes) (s : Scratch) : List Hit × Scratch :=
  let (s, hits) := if index.hex.maps.entries.isEmpty then (s, []) else scanHex index line s []
  let (s, hits) := scanTokens index line s hits
  (Sorting.stableSort Hit.offset hits, s)

/-!
## Files
-/

/-- A file by its name and its text, none when it cannot be read. -/
structure File where
  name : Bytes
  text : Option Bytes

structure Finding where
  file : Bytes
  line : Nat
  locator : Bytes
  kind : IdKind
deriving DecidableEq

/-- A name or a locator that would carry an identifier itself is withheld. -/
def safe (index : Index) (text : Bytes) : Bytes :=
  if (scan index text Scratch.empty).1.isEmpty then text else ascii "(withheld)"

/-- The lines from an offset on, each with its offset. -/
def linesFrom (start : Nat) (rest : Bytes) : List (Nat × Bytes) :=
  if rest = [] then []
  else
    let line := rest.takeWhile (· != '\n'.toUInt8)
    (start, withoutReturn line) ::
      linesFrom (start + line.length + 1) (rest.drop (line.length + 1))
termination_by rest.length
decreasing_by
  rw [List.length_drop]
  have hpos : 0 < rest.length := List.length_pos_of_ne_nil ‹_›
  omega

/-- The findings of a file, and what was reported for it. -/
structure Report where
  seen : List (Nat × Bytes × IdKind)
  out : List Finding
  scratch : Scratch

section Search

variable (locate : File -> Nat -> Bytes)

def Report.put (index : Index) (file : File) (start lineNo : Nat) (r : Report) (hit : Hit) :
    Report :=
  let place := safe index (locate file (start + hit.offset))
  if (lineNo, place, hit.kind) ∈ r.seen then r
  else
    { r with
      seen := r.seen ++ [(lineNo, place, hit.kind)]
      out := r.out ++ [⟨safe index file.name, lineNo, place, hit.kind⟩] }

def Report.line (index : Index) (file : File) (r : Report) (l : (Nat × Bytes) × Nat) : Report :=
  let (hits, scratch) := scan index l.1.2 r.scratch
  hits.foldl (Report.put locate index file l.1.1 (l.2 + 1)) { r with scratch := scratch }

def searchFile (index : Index) (scratch : Scratch) (file : File) : List Finding × Scratch :=
  match file.text with
  | none => ([⟨safe index file.name, 0, [], .unreadable⟩], scratch)
  | some text =>
      let r := (linesFrom 0 text).zipIdx.foldl (Report.line locate index file) ⟨[], [], scratch⟩
      (r.out, r.scratch)

def search (raw : RawSet) (files : List File) : List Finding :=
  let index := buildIndex raw
  (files.foldl
    (fun st file =>
      let (found, scratch) := searchFile locate index st.2 file
      (st.1 ++ found, scratch))
    ([], Scratch.empty)).1

end Search

/-!
## What the index finds
-/

def RawEntry.isHex (e : RawEntry) : Bool := e.mode = .hex

def RawEntry.isSingle (e : RawEntry) : Bool := e.mode = .token && allTokenChars e.needle

def RawEntry.isMulti (e : RawEntry) : Bool := e.mode = .token && !allTokenChars e.needle

/-- The needles of the entries of one sort. -/
def wordsOf (sort : RawEntry -> Bool) (entries : List RawEntry) : List (Bytes × IdKind) :=
  (entries.filter sort).map fun e => (e.needle, e.kind)

theorem mem_wordsOf {sort : RawEntry -> Bool} {entries : List RawEntry} {w : Bytes}
    {kind : IdKind} : (w, kind) ∈ wordsOf sort entries <->
      exists e, e ∈ entries ∧ sort e = true ∧ e.needle = w ∧ e.kind = kind := by
  unfold wordsOf
  simp only [List.mem_map, List.mem_filter, Prod.mk.injEq, and_assoc]

theorem wordsOf_cons_of_pos {sort : RawEntry -> Bool} {e : RawEntry} (h : sort e = true)
    (rest : List RawEntry) :
    wordsOf sort (e :: rest) = (e.needle, e.kind) :: wordsOf sort rest := by
  unfold wordsOf
  rw [List.filter_cons_of_pos h, List.map_cons]

theorem wordsOf_cons_of_neg {sort : RawEntry -> Bool} {e : RawEntry} (h : sort e = false)
    (rest : List RawEntry) : wordsOf sort (e :: rest) = wordsOf sort rest := by
  unfold wordsOf
  rw [List.filter_cons_of_neg (by rw [h]; decide)]

/-- Each entry goes into one of the three tables. -/
theorem foldl_put (entries : List RawEntry) (index : Index) :
    entries.foldl Index.put index =
      { hex := (wordsOf RawEntry.isHex entries).foldl (fun t e => t.emplace e.1 e.2) index.hex
        single := (wordsOf RawEntry.isSingle entries).foldl
          (fun m e => WordMap.emplace m e.1 e.2) index.single
        multi := (wordsOf RawEntry.isMulti entries).foldl
          (fun t e => t.emplace e.1 e.2) index.multi } := by
  induction entries generalizing index with
  | nil => rfl
  | cons e rest ih =>
      rw [List.foldl_cons, ih]
      rcases e with ⟨kind, mode, needle⟩
      cases mode with
      | hex =>
          rw [wordsOf_cons_of_pos rfl, wordsOf_cons_of_neg rfl, wordsOf_cons_of_neg rfl]
          rfl
      | token =>
          cases hall : allTokenChars needle with
          | true =>
              have hput : Index.put index ⟨kind, .token, needle⟩ =
                  { index with single := WordMap.emplace index.single needle kind } := by
                show (if allTokenChars needle = true then _ else _) = _
                rw [if_pos hall]
              rw [hput, wordsOf_cons_of_neg rfl,
                wordsOf_cons_of_pos (by simp [RawEntry.isSingle, hall]),
                wordsOf_cons_of_neg (by simp [RawEntry.isMulti, hall])]
              rfl
          | false =>
              have hput : Index.put index ⟨kind, .token, needle⟩ =
                  { index with multi := index.multi.emplace needle kind } := by
                show (if allTokenChars needle = true then _ else _) = _
                rw [if_neg (by rw [hall]; decide)]
              rw [hput, wordsOf_cons_of_neg rfl,
                wordsOf_cons_of_neg (by simp [RawEntry.isSingle, hall]),
                wordsOf_cons_of_pos (by simp [RawEntry.isMulti, hall])]
              rfl

theorem buildIndex_eq (raw : RawSet) :
    buildIndex raw =
      { hex := LengthTable.ofList (wordsOf RawEntry.isHex raw.entries)
        single := WordMap.ofList (wordsOf RawEntry.isSingle raw.entries)
        multi := LengthTable.ofList (wordsOf RawEntry.isMulti raw.entries) } :=
  foldl_put raw.entries Index.empty

/-!
## What the scan of a line finds
-/

/-- Where the bytes that are left of a line stood in it. -/
def originsFrom (i : Nat) (line : Bytes) : List Nat :=
  ((line.zipIdx i).filter fun c => !isSeparator c.1).map Prod.snd

def hexHits (index : Index) (line : Bytes) : List Hit :=
  (index.hex.hits (normalisedHex line)).map fun h => ⟨(originsFrom 0 line).getD h.1 0, h.2.2⟩

def singleHits (index : Index) (line : Bytes) : List Hit :=
  (runs isTokenChar (lowered line)).filterMap fun run =>
    (List.lookup run.2 index.single).map fun kind => ⟨run.1, kind⟩

def multiHits (index : Index) (line : Bytes) : List Hit :=
  (index.multi.hits (lowered line)).filterMap fun h =>
    if openOk (lowered line) h.1 h.2.1 && closeOk (lowered line) h.1 h.2.1 then
      some ⟨h.1, h.2.2⟩
    else none

theorem foldl_push (line : Bytes) (i : Nat) (s : Scratch) :
    (line.zipIdx i).foldl Scratch.push s =
      { s with
        norm := s.norm ++ normalisedHex line
        origin := s.origin ++ originsFrom i line } := by
  induction line generalizing i s with
  | nil =>
      show s = { s with norm := s.norm ++ [], origin := s.origin ++ [] }
      rw [List.append_nil, List.append_nil]
  | cons c rest ih =>
      have hcons : (c :: rest).zipIdx i = (c, i) :: rest.zipIdx (i + 1) := List.zipIdx_cons
      rw [hcons, List.foldl_cons, ih]
      unfold Scratch.push normalisedHex originsFrom
      rw [hcons]
      cases hsep : isSeparator c with
      | true => simp [hsep]
      | false => simp [hsep]

/-- The buffers are filled anew for each line, so what they held does not matter. -/
theorem scan_fst (index : Index) (line : Bytes) (s : Scratch) :
    (scan index line s).1 =
      Sorting.stableSort Hit.offset
        (hexHits index line ++ (singleHits index line ++ multiHits index line)) := by
  have hhex : forall s : Scratch,
      (if index.hex.maps.entries.isEmpty then (s, []) else scanHex index line s []).2 =
        hexHits index line := by
    intro s
    split_ifs with hempty
    · rw [List.isEmpty_iff] at hempty
      unfold hexHits LengthTable.hits
      rw [hempty]
      rfl
    · unfold scanHex hexHits
      rw [foldl_push, List.nil_append]
      rfl
  have htokens : forall (s : Scratch) (hits : List Hit), (scanTokens index line s hits).2 =
      hits ++ (singleHits index line ++ multiHits index line) := by
    intro s hits
    unfold scanTokens
    dsimp only
    split_ifs with hempty
    · have hnone : singleHits index line = [] := by
        rw [List.isEmpty_iff] at hempty
        unfold singleHits
        rw [hempty, List.filterMap_eq_nil_iff]
        intro run _
        rfl
      rw [hnone, List.nil_append]
      rfl
    · rw [List.append_assoc]
      rfl
  unfold scan
  dsimp only
  rw [htokens, hhex]

theorem mem_scan {index : Index} {line : Bytes} {s : Scratch} {h : Hit} :
    h ∈ (scan index line s).1 <->
      h ∈ hexHits index line ∨ h ∈ singleHits index line ∨ h ∈ multiHits index line := by
  rw [scan_fst, (Sorting.stableSort_perm Hit.offset _).mem_iff, List.mem_append, List.mem_append]

theorem cutsToken_iff {text : Bytes} {i : Nat} :
    CutsToken text i <-> 0 < i ∧ text[i - 1]?.any isTokenChar = true ∧
      text[i]?.any isTokenChar = true := by
  unfold CutsToken
  simp only [Option.any_eq_true]
  constructor
  · intro h
    rcases h with ⟨a, b, hi, ha, hb, hta, htb⟩
    exact ⟨hi, ⟨a, ha, hta⟩, ⟨b, hb, htb⟩⟩
  · intro h
    rcases h with ⟨hi, ⟨a, ha, hta⟩, ⟨b, hb, htb⟩⟩
    exact ⟨a, b, hi, ha, hb, hta, htb⟩

/-- The two tests at the ends of a window are that no token is cut there. -/
theorem ok_iff {low w : Bytes} {i : Nat} (hw : w ≠ []) (h : OccursAt w low i) :
    (openOk low i w && closeOk low i w) = true <->
      ¬ CutsToken low i ∧ ¬ CutsToken low (i + w.length) := by
  have hpos : 0 < w.length := List.length_pos_of_ne_nil hw
  have hget : forall k, k < w.length -> low[i + k]? = w[k]? := by
    intro k hk
    rcases occursAt_iff.mp h with ⟨pre, post, rfl, rfl⟩
    rw [List.append_assoc, List.getElem?_append_right (Nat.le_add_right _ _),
      Nat.add_sub_cancel_left, List.getElem?_append_left hk]
  have hhead : w.head? = low[i]? := by
    rw [List.head?_eq_getElem?, ← hget 0 hpos, Nat.add_zero]
  have hlast : w.getLast? = low[i + w.length - 1]? := by
    rw [List.getLast?_eq_getElem?, ← hget (w.length - 1) (by omega)]
    congr 1
    omega
  have hend : i + w.length = low.length -> low[i + w.length]?.any isTokenChar = false := by
    intro heq
    rw [heq, List.getElem?_eq_none (Nat.le_refl _)]
    rfl
  unfold openOk closeOk
  rw [cutsToken_iff, cutsToken_iff, hhead, hlast, Bool.and_eq_true]
  simp only [Bool.or_eq_true, Bool.not_eq_true', beq_iff_eq, not_and, Bool.not_eq_true]
  constructor
  · intro hok
    rcases hok with ⟨hopen, hclose⟩
    constructor
    · intro hi hbefore
      rcases hopen with (hopen | hopen) | hopen
      · exact hopen
      · omega
      · rw [hopen] at hbefore
        cases hbefore
    · intro _ hbefore
      rcases hclose with (hclose | hclose) | hclose
      · rw [hclose] at hbefore
        cases hbefore
      · exact hend hclose
      · exact hclose
  · intro hcut
    rcases hcut with ⟨hopen, hclose⟩
    constructor
    · cases hbefore : low[i - 1]?.any isTokenChar with
      | false => exact Or.inr rfl
      | true =>
          rcases Nat.eq_zero_or_pos i with hi | hi
          · exact Or.inl (Or.inr hi)
          · exact Or.inl (Or.inl (hopen hi hbefore))
    · cases hbefore : low[i + w.length - 1]?.any isTokenChar with
      | false => exact Or.inl (Or.inl rfl)
      | true => exact Or.inr (hclose (by omega) hbefore)

section Line

variable (raw : RawSet) (line : Bytes)

theorem mem_hexHits {kind : IdKind} :
    (exists h, h ∈ hexHits (buildIndex raw) line ∧ h.kind = kind) <->
      exists i w, OccursAt w (normalisedHex line) i ∧
        (LengthTable.ofList (wordsOf RawEntry.isHex raw.entries)).find? w = some kind := by
  unfold hexHits
  rw [buildIndex_eq]
  constructor
  · intro h
    rcases h with ⟨h, hh, rfl⟩
    rcases List.mem_map.mp hh with ⟨⟨i, w, kind⟩, hmem, rfl⟩
    exact ⟨i, w, LengthTable.mem_hits.mp hmem⟩
  · intro h
    rcases h with ⟨i, w, hmem⟩
    exact ⟨_, List.mem_map_of_mem (LengthTable.mem_hits.mpr hmem), rfl⟩

theorem mem_singleHits {kind : IdKind} :
    (exists h, h ∈ singleHits (buildIndex raw) line ∧ h.kind = kind) <->
      exists i run, MaximalRun isTokenChar line i run ∧
        List.lookup (lowered run) (WordMap.ofList (wordsOf RawEntry.isSingle raw.entries)) =
          some kind := by
  unfold singleHits
  rw [buildIndex_eq]
  constructor
  · intro h
    rcases h with ⟨h, hh, rfl⟩
    rcases List.mem_filterMap.mp hh with ⟨⟨i, w⟩, hrun, heq⟩
    rcases Option.map_eq_some_iff.mp heq with ⟨kind, hkind, rfl⟩
    rcases (maximalRun_map isTokenChar_lower).mp (mem_runs.mp hrun) with ⟨run, hrun, hw⟩
    refine ⟨i, run, hrun, ?_⟩
    show List.lookup (run.map lower) _ = _
    rw [hw]
    exact hkind
  · intro h
    rcases h with ⟨i, run, hrun, hkind⟩
    have hlow : (i, lowered run) ∈ runs isTokenChar (lowered line) :=
      mem_runs.mpr ((maximalRun_map isTokenChar_lower).mpr ⟨run, hrun, rfl⟩)
    refine ⟨⟨i, kind⟩, List.mem_filterMap.mpr ⟨_, hlow, ?_⟩, rfl⟩
    dsimp only
    rw [hkind]
    rfl

theorem mem_multiHits {kind : IdKind} :
    (exists h, h ∈ multiHits (buildIndex raw) line ∧ h.kind = kind) <->
      exists i w, OccursAt w (lowered line) i ∧
        (openOk (lowered line) i w && closeOk (lowered line) i w) = true ∧
        (LengthTable.ofList (wordsOf RawEntry.isMulti raw.entries)).find? w = some kind := by
  unfold multiHits
  rw [buildIndex_eq]
  constructor
  · intro h
    rcases h with ⟨h, hh, rfl⟩
    rcases List.mem_filterMap.mp hh with ⟨⟨i, w, kind⟩, hmem, heq⟩
    rcases LengthTable.mem_hits.mp hmem with ⟨hocc, hkind⟩
    dsimp only at heq
    split_ifs at heq with hok
    rw [Option.some_inj] at heq
    rw [← heq]
    exact ⟨i, w, hocc, hok, hkind⟩
  · intro h
    rcases h with ⟨i, w, hocc, hok, hkind⟩
    refine ⟨⟨i, kind⟩, List.mem_filterMap.mpr
      ⟨(i, w, kind), LengthTable.mem_hits.mpr ⟨hocc, hkind⟩, ?_⟩, rfl⟩
    dsimp only
    rw [if_pos hok]

theorem matches_of_isHex {e : RawEntry} (he : e.isHex = true) :
    e.Matches line <-> e.needle <:+: normalisedHex line := by
  unfold RawEntry.isHex at he
  unfold RawEntry.Matches
  rw [of_decide_eq_true he]

theorem matches_of_isSingle {e : RawEntry} (he : e.isSingle = true) (hnormal : e.Normal) :
    e.Matches line <->
      exists i run, MaximalRun isTokenChar line i run ∧ lowered run = e.needle := by
  unfold RawEntry.isSingle at he
  rw [Bool.and_eq_true, decide_eq_true_eq] at he
  unfold RawEntry.Matches
  rw [he.1]
  dsimp only
  rw [if_pos he.2, hnormal.lowered]

theorem matches_of_isMulti {e : RawEntry} (he : e.isMulti = true) :
    e.Matches line <-> exists i, OccursAt e.needle (lowered line) i ∧
      (openOk (lowered line) i e.needle && closeOk (lowered line) i e.needle) = true := by
  unfold RawEntry.isMulti at he
  rw [Bool.and_eq_true, decide_eq_true_eq] at he
  have hall : ¬ allTokenChars e.needle = true := by simpa using he.2
  have hne : e.needle ≠ [] := by
    intro hnil
    rw [hnil] at hall
    exact hall rfl
  unfold RawEntry.Matches
  rw [he.1]
  dsimp only
  rw [if_neg hall]
  constructor
  · intro h
    rcases h with ⟨i, hocc, hcut⟩
    exact ⟨i, hocc, (ok_iff hne hocc).mpr hcut⟩
  · intro h
    rcases h with ⟨i, hocc, hok⟩
    exact ⟨i, hocc, (ok_iff hne hocc).mp hok⟩

/-- The kind of a hit is the kind of an entry that matches the line. -/
theorem scan_sound {s : Scratch} {h : Hit} (hh : h ∈ (scan (buildIndex raw) line s).1) :
    exists e, e ∈ raw.entries ∧ e.kind = h.kind ∧ e.Matches line := by
  rcases mem_scan.mp hh with hh | hh | hh
  · rcases (mem_hexHits raw line).mp ⟨h, hh, rfl⟩ with ⟨i, w, hocc, hfind⟩
    rcases mem_wordsOf.mp (LengthTable.mem_of_find?_ofList hfind) with ⟨e, he, hsort, rfl, hkind⟩
    exact ⟨e, he, hkind, (matches_of_isHex line hsort).mpr (infix_iff_occursAt.mpr ⟨i, hocc⟩)⟩
  · rcases (mem_singleHits raw line).mp ⟨h, hh, rfl⟩ with ⟨i, run, hrun, hfind⟩
    rcases mem_wordsOf.mp (WordMap.mem_of_lookup_ofList hfind) with ⟨e, he, hsort, hw, hkind⟩
    exact ⟨e, he, hkind,
      (matches_of_isSingle line hsort (raw.normal e he)).mpr ⟨i, run, hrun, hw.symm⟩⟩
  · rcases (mem_multiHits raw line).mp ⟨h, hh, rfl⟩ with ⟨i, w, hocc, hok, hfind⟩
    rcases mem_wordsOf.mp (LengthTable.mem_of_find?_ofList hfind) with ⟨e, he, hsort, rfl, hkind⟩
    exact ⟨e, he, hkind, (matches_of_isMulti line hsort).mpr ⟨i, hocc, hok⟩⟩

theorem RawEntry.sort_cases (e : RawEntry) :
    e.isHex = true ∨ e.isSingle = true ∨ e.isMulti = true := by
  unfold RawEntry.isHex RawEntry.isSingle RawEntry.isMulti
  cases e.mode with
  | hex => exact Or.inl rfl
  | token =>
      cases allTokenChars e.needle with
      | true => exact Or.inr (Or.inl rfl)
      | false => exact Or.inr (Or.inr rfl)

/-- A line that an entry matches has a hit. -/
theorem scan_complete (s : Scratch) {e : RawEntry} (he : e ∈ raw.entries)
    (hmatch : e.Matches line) : exists h, h ∈ (scan (buildIndex raw) line s).1 := by
  rcases e.sort_cases with hsort | hsort | hsort
  · rcases infix_iff_occursAt.mp ((matches_of_isHex line hsort).mp hmatch) with ⟨i, hocc⟩
    rcases Option.isSome_iff_exists.mp (LengthTable.isSome_find?_ofList
      (mem_wordsOf.mpr ⟨e, he, hsort, rfl, rfl⟩)) with ⟨kind, hkind⟩
    rcases (mem_hexHits raw line).mpr ⟨i, e.needle, hocc, hkind⟩ with ⟨h, hh, _⟩
    exact ⟨h, mem_scan.mpr (Or.inl hh)⟩
  · rcases (matches_of_isSingle line hsort (raw.normal e he)).mp hmatch with ⟨i, run, hrun, hw⟩
    rcases Option.isSome_iff_exists.mp (WordMap.isSome_lookup_ofList
      (mem_wordsOf.mpr ⟨e, he, hsort, rfl, rfl⟩)) with ⟨kind, hkind⟩
    rcases (mem_singleHits raw line).mpr ⟨i, run, hrun, hw ▸ hkind⟩ with ⟨h, hh, _⟩
    exact ⟨h, mem_scan.mpr (Or.inr (Or.inl hh))⟩
  · rcases (matches_of_isMulti line hsort).mp hmatch with ⟨i, hocc, hok⟩
    rcases Option.isSome_iff_exists.mp (LengthTable.isSome_find?_ofList
      (mem_wordsOf.mpr ⟨e, he, hsort, rfl, rfl⟩)) with ⟨kind, hkind⟩
    rcases (mem_multiHits raw line).mpr ⟨i, e.needle, hocc, hok, hkind⟩ with ⟨h, hh, _⟩
    exact ⟨h, mem_scan.mpr (Or.inr (Or.inr hh))⟩

end Line

/-!
## What the search of files reports
-/

theorem textLines_last {line : Bytes} (hline : '\n'.toUInt8 ∉ line) (hne : line ≠ []) :
    textLines line = [withoutReturn line] := by
  unfold textLines
  rw [List.splitOn_eq_singleton hline]
  dsimp only
  rw [if_neg (by simpa using hne)]
  rfl

theorem textLines_append {line : Bytes} (hline : '\n'.toUInt8 ∉ line) (tail : Bytes) :
    textLines (line ++ '\n'.toUInt8 :: tail) = withoutReturn line :: textLines tail := by
  unfold textLines
  rw [List.splitOn_append_cons_self_of_not_mem hline]
  have hne : tail.splitOn '\n'.toUInt8 ≠ [] := List.splitOn_ne_nil _ _
  dsimp only
  rw [List.getLast?_cons_of_ne_nil hne, List.dropLast_cons_of_ne_nil hne]
  split_ifs
  · rfl
  · rfl

/-- A text is a last line, or a line with its end and a text. -/
theorem lines_induction {P : Bytes -> Prop} (last : forall line, '\n'.toUInt8 ∉ line -> P line)
    (cons : forall line rest, '\n'.toUInt8 ∉ line -> P rest -> P (line ++ '\n'.toUInt8 :: rest))
    (text : Bytes) : P text := by
  generalize hn : text.length = n
  induction n using Nat.strongRecOn generalizing text with
  | ind n ih =>
      by_cases hmem : '\n'.toUInt8 ∈ text
      · rcases List.append_of_mem hmem with ⟨s, t, hst⟩
        rcases List.eq_append_cons_of_mem hmem with ⟨line, rest, rfl, hline⟩
        refine cons line rest hline (ih rest.length ?_ rest rfl)
        rw [← hn, List.length_append, List.length_cons]
        exact Nat.lt_of_lt_of_le (Nat.lt_succ_self _) (Nat.le_add_left _ _)
      · exact last text hmem

theorem textLines_nil : textLines [] = [] := rfl

/-- A line feed cuts the lines of a text in two. -/
theorem textLines_cut (a b : Bytes) :
    textLines (a ++ '\n'.toUInt8 :: b) = textLines (a ++ ['\n'.toUInt8]) ++ textLines b := by
  induction a using lines_induction with
  | last line hline =>
      rw [textLines_append hline, textLines_append hline, textLines_nil]
      rfl
  | cons line rest hline ih =>
      rw [List.append_assoc, List.append_assoc, List.cons_append, List.cons_append,
        textLines_append hline, textLines_append hline, ih]
      rfl

/-- A line feed at the end of a text adds at most an empty line. -/
theorem mem_textLines_snoc {a line : Bytes} (h : line ∈ textLines (a ++ ['\n'.toUInt8])) :
    line ∈ textLines a ∨ line = [] := by
  induction a using lines_induction with
  | last first hfirst =>
      rw [textLines_append hfirst, textLines_nil, List.mem_singleton] at h
      by_cases hnil : first = []
      · right
        rw [h, hnil]
        rfl
      · left
        rw [textLines_last hfirst hnil, h]
        exact List.mem_cons_self
  | cons first rest hfirst ih =>
      rw [List.append_assoc, List.cons_append, textLines_append hfirst] at h
      rw [textLines_append hfirst]
      rcases List.mem_cons.mp h with h | h
      · exact Or.inl (List.mem_cons.mpr (Or.inl h))
      · exact (ih h).imp (List.mem_cons_of_mem _) id

/-- The loop over a text reads its lines. -/
theorem linesFrom_lines (start : Nat) (text : Bytes) :
    (linesFrom start text).map Prod.snd = textLines text := by
  fun_induction linesFrom start text with
  | case1 start => rfl
  | case2 start rest hne line ih =>
      have hline : '\n'.toUInt8 ∉ line := by
        intro hmem
        have hbad := List.all_eq_true.mp (List.all_takeWhile (l := rest)) _ hmem
        simp at hbad
      have hsplit : line ++ rest.dropWhile (· != '\n'.toUInt8) = rest :=
        List.takeWhile_append_dropWhile
      have hdrop : rest.drop (line.length + 1) =
          (rest.dropWhile (· != '\n'.toUInt8)).drop 1 := by
        rw [← List.drop_drop]
        conv => lhs; rw [← hsplit]
        rw [List.drop_left]
      rw [List.map_cons, ih, hdrop]
      cases htail : rest.dropWhile (· != '\n'.toUInt8) with
      | nil =>
          rw [htail, List.append_nil] at hsplit
          rw [← hsplit]
          exact (textLines_last hline (by rw [hsplit]; exact hne)).symm
      | cons c tail =>
          have hc : c = '\n'.toUInt8 := by
            have hhead : (rest.dropWhile (· != '\n'.toUInt8)).head? = some c := by
              rw [htail]
              rfl
            simpa using head?_dropWhile hhead
          rw [htail, hc] at hsplit
          rw [← hsplit]
          exact (textLines_append hline tail).symm

section Reports

variable (locate : File -> Nat -> Bytes) (index : Index) (file : File)

/-- What was reported for a file is what was seen in it. -/
def Report.Consistent (r : Report) : Prop :=
  forall f, f ∈ r.out <-> exists t, t ∈ r.seen ∧ f = ⟨safe index file.name, t.1, t.2.1, t.2.2⟩

theorem mem_put (start lineNo : Nat) {r : Report} (hr : r.Consistent index file) (hit : Hit) :
    (r.put locate index file start lineNo hit).Consistent index file ∧
      forall t, t ∈ (r.put locate index file start lineNo hit).seen <->
        t ∈ r.seen ∨
          t = (lineNo, safe index (locate file (start + hit.offset)), hit.kind) := by
  unfold Report.put
  dsimp only
  split_ifs with hseen
  · refine ⟨hr, ?_⟩
    intro t
    constructor
    · exact Or.inl
    · intro ht
      rcases ht with ht | ht
      · exact ht
      · rw [ht]
        exact hseen
  · constructor
    · intro f
      dsimp only
      simp only [List.mem_append, List.mem_singleton, hr f, or_and_right, exists_or,
        exists_eq_left]
    · intro t
      simp only [List.mem_append, List.mem_singleton]

theorem mem_foldl_put (start lineNo : Nat) (hits : List Hit) {r : Report}
    (hr : r.Consistent index file) :
    (hits.foldl (Report.put locate index file start lineNo) r).Consistent index file ∧
      forall t, t ∈ (hits.foldl (Report.put locate index file start lineNo) r).seen <->
        t ∈ r.seen ∨ exists h, h ∈ hits ∧
          t = (lineNo, safe index (locate file (start + h.offset)), h.kind) := by
  induction hits generalizing r with
  | nil =>
      refine ⟨hr, ?_⟩
      intro t
      simp
  | cons hit rest ih =>
      rcases mem_put locate index file start lineNo hr hit with ⟨hput, hseen⟩
      rcases ih hput with ⟨hall, hmem⟩
      refine ⟨hall, ?_⟩
      intro t
      rw [List.foldl_cons, hmem, hseen]
      simp only [List.mem_cons, or_and_right, exists_or, exists_eq_left, or_assoc]

/-- The hits of a line, whatever the buffers held. -/
def hitsOf (line : Bytes) : List Hit := (scan index line Scratch.empty).1

theorem scan_fst_eq (line : Bytes) (s : Scratch) :
    (scan index line s).1 = hitsOf index line := by
  unfold hitsOf
  rw [scan_fst, scan_fst]

theorem mem_foldl_line (ls : List (Nat × Bytes)) (n : Nat) {r : Report}
    (hr : r.Consistent index file) :
    ((ls.zipIdx n).foldl (Report.line locate index file) r).Consistent index file ∧
      forall t, t ∈ ((ls.zipIdx n).foldl (Report.line locate index file) r).seen <->
        t ∈ r.seen ∨ exists k l, ls[k]? = some l ∧ exists h, h ∈ hitsOf index l.2 ∧
          t = (n + k + 1, safe index (locate file (l.1 + h.offset)), h.kind) := by
  induction ls generalizing n r with
  | nil =>
      refine ⟨hr, ?_⟩
      intro t
      simp
  | cons l rest ih =>
      have hfirst := mem_foldl_put locate index file l.1 (n + 1) (hitsOf index l.2)
        (r := { r with scratch := (scan index l.2 r.scratch).2 }) hr
      have hline : r.line locate index file (l, n) =
          (hitsOf index l.2).foldl (Report.put locate index file l.1 (n + 1))
            { r with scratch := (scan index l.2 r.scratch).2 } := by
        unfold Report.line
        dsimp only
        rw [scan_fst_eq]
      rw [List.zipIdx_cons, List.foldl_cons, hline]
      rcases ih (n + 1) hfirst.1 with ⟨hall, hmem⟩
      refine ⟨hall, ?_⟩
      intro t
      rw [hmem, hfirst.2, or_assoc]
      apply or_congr_right
      constructor
      · intro ht
        rcases ht with ⟨h, hh, rfl⟩ | ⟨k, l', hl', h, hh, rfl⟩
        · exact ⟨0, l, rfl, h, hh, rfl⟩
        · refine ⟨k + 1, l', hl', h, hh, ?_⟩
          rw [Nat.add_right_comm n 1 k, Nat.add_assoc n k 1]
      · intro ht
        rcases ht with ⟨k, l', hl', h, hh, rfl⟩
        cases k with
        | zero =>
            left
            rw [List.getElem?_cons_zero, Option.some_inj] at hl'
            rw [hl']
            exact ⟨h, hh, rfl⟩
        | succ k =>
            right
            refine ⟨k, l', hl', h, hh, ?_⟩
            rw [Nat.add_right_comm n 1 k, Nat.add_assoc n k 1]

/-- The findings of a file are the hits of its lines. -/
theorem mem_searchFile {text : Bytes} (htext : file.text = some text) (scratch : Scratch)
    {f : Finding} :
    f ∈ (searchFile locate index scratch file).1 <->
      exists k l, (linesFrom 0 text)[k]? = some l ∧ exists h, h ∈ hitsOf index l.2 ∧
        f = ⟨safe index file.name, k + 1, safe index (locate file (l.1 + h.offset)), h.kind⟩ := by
  have hstart : (⟨[], [], scratch⟩ : Report).Consistent index file := by
    intro f
    simp
  rcases mem_foldl_line locate index file (linesFrom 0 text) 0 hstart with ⟨hall, hmem⟩
  unfold searchFile
  rw [htext]
  dsimp only
  rw [hall]
  constructor
  · intro h
    rcases h with ⟨t, ht, rfl⟩
    rcases (hmem t).mp ht with ht | ⟨k, l, hl, h, hh, rfl⟩
    · cases ht
    · refine ⟨k, l, hl, h, hh, ?_⟩
      rw [Nat.zero_add]
  · intro h
    rcases h with ⟨k, l, hl, h, hh, rfl⟩
    refine ⟨_, (hmem _).mpr (Or.inr ⟨k, l, hl, h, hh, rfl⟩), ?_⟩
    rw [Nat.zero_add]

/-- Two reports that may differ in their buffers only. -/
def Report.Same (r r' : Report) : Prop := r.seen = r'.seen ∧ r.out = r'.out

theorem foldl_put_same (start lineNo : Nat) (hits : List Hit) {r r' : Report}
    (h : r.Same r') :
    (hits.foldl (Report.put locate index file start lineNo) r).Same
      (hits.foldl (Report.put locate index file start lineNo) r') := by
  induction hits generalizing r r' with
  | nil => exact h
  | cons hit rest ih =>
      apply ih
      unfold Report.put
      rw [h.1]
      dsimp only
      split_ifs
      · exact h
      · refine ⟨?_, ?_⟩
        · rfl
        · dsimp only
          rw [h.2]

theorem foldl_line_same (ls : List ((Nat × Bytes) × Nat)) {r r' : Report} (h : r.Same r') :
    (ls.foldl (Report.line locate index file) r).Same
      (ls.foldl (Report.line locate index file) r') := by
  induction ls generalizing r r' with
  | nil => exact h
  | cons l rest ih =>
      apply ih
      unfold Report.line
      dsimp only
      rw [scan_fst_eq, scan_fst_eq]
      exact foldl_put_same locate index file _ _ _ h

theorem searchFile_fst (scratch : Scratch) :
    (searchFile locate index scratch file).1 =
      (searchFile locate index Scratch.empty file).1 := by
  unfold searchFile
  cases file.text with
  | none => rfl
  | some text =>
      have hsame : (⟨[], [], scratch⟩ : Report).Same ⟨[], [], Scratch.empty⟩ := ⟨rfl, rfl⟩
      exact (foldl_line_same locate index file (linesFrom 0 text).zipIdx hsame).2

end Reports

section Files

variable (locate : File -> Nat -> Bytes) (raw : RawSet)

theorem search_singleton (file : File) :
    search locate raw [file] = (searchFile locate (buildIndex raw) Scratch.empty file).1 :=
  List.nil_append _

/-- The findings of several files are those of each, one after another. -/
theorem search_eq_flatMap (files : List File) :
    search locate raw files = files.flatMap fun file => search locate raw [file] := by
  have hfold : forall (files : List File) (out : List Finding) (scratch : Scratch),
      (files.foldl
        (fun st file =>
          ((st.1 ++ (searchFile locate (buildIndex raw) st.2 file).1,
            (searchFile locate (buildIndex raw) st.2 file).2) : List Finding × Scratch))
        (out, scratch)).1 = out ++ files.flatMap fun file => search locate raw [file] := by
    intro files
    induction files with
    | nil =>
        intro out scratch
        exact (List.append_nil out).symm
    | cons file rest ih =>
        intro out scratch
        rw [List.foldl_cons, ih, List.flatMap_cons, search_singleton, searchFile_fst,
          List.append_assoc]
  exact hfold files [] Scratch.empty

/--
For each readable file the search reports exactly the lines that some entry matches
by the reference matcher, and the kind of a finding is the kind of such an entry.
-/
theorem search_matches (files : List File) :
    (search locate raw files = files.flatMap fun file => search locate raw [file]) ∧
    forall name text,
      (forall k, (exists f, f ∈ search locate raw [⟨name, some text⟩] ∧ f.line = k + 1) <->
        exists line, (textLines text)[k]? = some line ∧
          exists e, e ∈ raw.entries ∧ e.Matches line) ∧
      forall f, f ∈ search locate raw [⟨name, some text⟩] ->
        exists k line, f.line = k + 1 ∧ (textLines text)[k]? = some line ∧
          exists e, e ∈ raw.entries ∧ e.kind = f.kind ∧ e.Matches line := by
  refine ⟨search_eq_flatMap locate raw files, ?_⟩
  intro name text
  have hsound : forall f, f ∈ search locate raw [⟨name, some text⟩] ->
      exists k line, f.line = k + 1 ∧ (textLines text)[k]? = some line ∧
        exists e, e ∈ raw.entries ∧ e.kind = f.kind ∧ e.Matches line := by
    intro f hf
    rw [search_singleton, mem_searchFile locate _ _ rfl] at hf
    rcases hf with ⟨k, l, hl, h, hh, rfl⟩
    refine ⟨k, l.2, rfl, ?_, scan_sound raw l.2 hh⟩
    rw [← linesFrom_lines 0 text, List.getElem?_map, hl]
    rfl
  refine ⟨?_, hsound⟩
  intro k
  constructor
  · intro hf
    rcases hf with ⟨f, hf, hk⟩
    rcases hsound f hf with ⟨k', line, hk', hline, e, he, _, hmatch⟩
    have heq : k' = k := by omega
    rw [← heq]
    exact ⟨line, hline, e, he, hmatch⟩
  · intro h
    rcases h with ⟨line, hline, e, he, hmatch⟩
    rw [← linesFrom_lines 0 text, List.getElem?_map] at hline
    rcases Option.map_eq_some_iff.mp hline with ⟨l, hl, rfl⟩
    rcases scan_complete raw l.2 Scratch.empty he hmatch with ⟨hit, hhit⟩
    refine ⟨⟨safe (buildIndex raw) name, k + 1, safe (buildIndex raw)
      (locate ⟨name, some text⟩ (l.1 + hit.offset)), hit.kind⟩, ?_, rfl⟩
    rw [search_singleton, mem_searchFile locate _ _ rfl]
    exact ⟨k, l, hl, hit, hhit, rfl⟩

end Files

/-- A raw set that holds one host name. -/
def hostSet : RawSet where
  entries := [⟨.hostname, .token, ascii "node-17"⟩]
  seen := [(.token, ascii "node-17")]
  skippedShort := 0
  normal := by
    intro e he
    rw [List.mem_singleton.mp he]
    exact ⟨by decide, by decide, fun h => by cases h⟩
  seen_eq := rfl
  nodup := by decide

/-- The second line names the host in upper case; lines end with CR and LF. -/
def hostText : Bytes := ascii "first\r\nhost NODE-17\r\n"

theorem search_hostText :
    exists f, f ∈ search (fun _ _ => []) hostSet [⟨ascii "meta.json", some hostText⟩] ∧
      f.line = 2 ∧ f.kind = .hostname := by
  have hall := (search_matches (fun _ _ => []) hostSet []).2 (ascii "meta.json") hostText
  have hmatch : RawEntry.Matches ⟨.hostname, .token, ascii "node-17"⟩ (ascii "host NODE-17") := by
    unfold RawEntry.Matches
    dsimp only
    rw [if_pos (by decide)]
    refine ⟨5, ascii "NODE-17", ⟨by decide, by decide, ascii "host ", [], by decide, by decide,
      ?_, ?_⟩, by decide⟩
    · intro c hc
      have hlast : (ascii "host ").getLast? = some ' '.toUInt8 := by decide
      rw [hlast, Option.some_inj] at hc
      rw [← hc]
      decide
    · intro c hc
      cases hc
  have hline : (textLines hostText)[1]? = some (ascii "host NODE-17") := by decide
  have hentry : ⟨.hostname, .token, ascii "node-17"⟩ ∈ hostSet.entries := List.mem_singleton.mpr rfl
  rcases (hall.1 1).mpr ⟨_, hline, _, hentry, hmatch⟩ with ⟨f, hf, hfline⟩
  rcases hall.2 f hf with ⟨_, _, _, _, e, he, hkind, _⟩
  have heq : e = ⟨.hostname, .token, ascii "node-17"⟩ := List.mem_singleton.mp he
  rw [heq] at hkind
  exact ⟨f, hf, hfline, hkind.symm⟩

end Capture
end Ostia

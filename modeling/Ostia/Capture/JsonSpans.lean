import Ostia.Capture.LeakSearch
import Ostia.Foundation.JsonGrammar
import Ostia.Foundation.Sorting

/-!
# Locators of JSON files

The tolerant tokenizer that gives each string, number and literal of a JSON file the pointer of
its value, and the search that finds the token an offset falls in.
-/

namespace Ostia
namespace Capture
namespace JsonSpans

open Foundation

/-!
## The tokenizer
-/

structure Span where
  begin : Nat
  stop : Nat
  locator : Bytes
deriving DecidableEq

def pointerToken (key : Bytes) : Bytes :=
  key.flatMap fun c =>
    if c = '~'.toUInt8 then ascii "~0" else if c = '/'.toUInt8 then ascii "~1" else [c]

structure Frame where
  object : Bool
  base : Bytes
  key : Bytes
  index : Nat

/-- The pointer of the value that the tokenizer is at; the head of the stack is its top. -/
def current : List Frame -> Bytes
  | [] => []
  | top :: _ =>
      top.base ++ ascii "/" ++
        if top.object then pointerToken top.key else ascii (toString top.index)

/-- The white space of the C locale. -/
def isSpace (c : UInt8) : Bool := (ascii " \t\n\x0b\x0c\r").contains c

/-- The content of a string after its opening quote, and the text from its closing quote on. -/
def scanString : Bytes -> Bytes × Bytes
  | [] => ([], [])
  | [c] => if c = '"'.toUInt8 then ([], [c]) else ([c], [])
  | c :: d :: rest =>
      if c = '"'.toUInt8 then ([], c :: d :: rest)
      else if c = '\\'.toUInt8 then
        let r := scanString rest
        (d :: r.1, r.2)
      else
        let r := scanString (d :: rest)
        (c :: r.1, r.2)

def isStop (c : UInt8) : Bool := (ascii ",\x7d] \t\r\n").contains c

/-- The stack and the pending key after a comma. -/
def comma (stack : List Frame) (expectKey : Bool) : List Frame × Bool :=
  match stack with
  | [] => ([], expectKey)
  | top :: below =>
      if top.object then (top :: below, true)
      else ({ top with index := top.index + 1 } :: below, expectKey)

/-- The stack and the pending key after a string. -/
def keyed (content : Bytes) (stack : List Frame) (expectKey : Bool) : List Frame × Bool :=
  match stack with
  | [] => ([], expectKey)
  | top :: below =>
      if expectKey && top.object then ({ top with key := content } :: below, false)
      else (top :: below, expectKey)

theorem length_scanString (text : Bytes) : (scanString text).2.length ≤ text.length := by
  fun_induction scanString text with
  | case1 => exact le_rfl
  | case2 => exact le_rfl
  | case3 => exact Nat.zero_le _
  | case4 => exact le_rfl
  | case5 d rest _ r ih =>
      show (scanString rest).2.length ≤ rest.length + 2
      omega
  | case6 c d rest _ _ r ih =>
      show (scanString (d :: rest)).2.length ≤ rest.length + 2
      rw [List.length_cons] at ih
      omega

/-- The spans of the text that starts at an offset. -/
def scan (i : Nat) (stack : List Frame) (expectKey : Bool) (text : Bytes) : List Span :=
  match text with
  | [] => []
  | c :: rest =>
      if c = '\x7b'.toUInt8 ∨ c = '['.toUInt8 then
        scan (i + 1) (⟨c = '\x7b'.toUInt8, current stack, [], 0⟩ :: stack)
          (c = '\x7b'.toUInt8) rest
      else if c = '\x7d'.toUInt8 ∨ c = ']'.toUInt8 then scan (i + 1) stack.tail false rest
      else if c = ','.toUInt8 then
        let next := comma stack expectKey
        scan (i + 1) next.1 next.2 rest
      else if c = ':'.toUInt8 ∨ isSpace c then scan (i + 1) stack expectKey rest
      else if c = '"'.toUInt8 then
        let string := scanString rest
        let later := string.2.tail
        let stop := i + 1 + (rest.length - later.length)
        let next := keyed string.1 stack expectKey
        ⟨i, stop, current next.1⟩ :: scan stop next.1 next.2 later
      else
        -- None of the bytes that end a run comes here first.
        let run := c :: rest.takeWhile fun c => !isStop c
        ⟨i, i + run.length, current stack⟩ ::
          scan (i + run.length) stack expectKey (rest.dropWhile fun c => !isStop c)
termination_by text.length
decreasing_by
  · simp
  · simp
  · simp
  · simp
  · have hlength := length_scanString rest
    rw [List.length_tail, List.length_cons]
    omega
  · have hlength := (List.dropWhile_sublist (l := rest) fun c => !isStop c).length_le
    rw [List.length_cons]
    omega

def jsonSpans (text : Bytes) : List Span := scan 0 [] false text

/-!
## The locator
-/

/-- The extension of the file name of a path, with its dot. -/
def extension (path : Bytes) : Bytes :=
  let name := (path.reverse.takeWhile (· != '/'.toUInt8)).reverse
  let stem := name.reverse.dropWhile (· != '.'.toUInt8)
  if name = ascii ".." ∨ stem.length ≤ 1 then []
  else '.'.toUInt8 :: (name.reverse.takeWhile (· != '.'.toUInt8)).reverse

structure Locator where
  path : Bytes
  text : Bytes

/-- The spans of a file by its name; those of XML files are given. -/
def Locator.build (xmlSpans : Bytes -> List Span) (l : Locator) : List Span :=
  if extension l.path = ascii ".json" then jsonSpans l.text
  else if extension l.path = ascii ".xml" then xmlSpans l.text
  else []

/-- The span that contains the offset, or else the last one before it. -/
def Locator.at (xmlSpans : Bytes -> List Span) (l : Locator) (offset : Nat) : Bytes :=
  let spans := l.build xmlSpans
  match Sorting.upperBound (fun s => decide (offset < s.begin)) spans with
  | 0 => []
  | after + 1 => (spans[after]?.map Span.locator).getD []

/-!
## Lookup

The spans of any text stand one after the other, so the search finds the one that an offset
falls in.
-/

theorem scan_ordered (i : Nat) (stack : List Frame) (expectKey : Bool) (text : Bytes) :
    (forall s, s ∈ scan i stack expectKey text -> i ≤ s.begin ∧ s.begin ≤ s.stop) ∧
      (scan i stack expectKey text).Pairwise fun a b => a.stop ≤ b.begin := by
  -- A span put before later ones that start at its end or after it.
  have hcons : forall (s : Span) (later : List Span) (i : Nat), i = s.begin ->
      s.begin ≤ s.stop ->
      ((forall t, t ∈ later -> s.stop ≤ t.begin ∧ t.begin ≤ t.stop) ∧
        later.Pairwise fun a b => a.stop ≤ b.begin) ->
      (forall t, t ∈ s :: later -> i ≤ t.begin ∧ t.begin ≤ t.stop) ∧
        (s :: later).Pairwise fun a b => a.stop ≤ b.begin := by
    intro s later i hi hs hlater
    constructor
    · intro t ht
      cases List.mem_cons.mp ht with
      | inl ht =>
          subst ht
          exact ⟨hi.le, hs⟩
      | inr ht =>
          have hbounds := hlater.1 t ht
          omega
    · exact List.pairwise_cons.mpr ⟨fun t ht => (hlater.1 t ht).1, hlater.2⟩
  have hnext : forall (later : List Span) (i : Nat),
      ((forall t, t ∈ later -> i + 1 ≤ t.begin ∧ t.begin ≤ t.stop) ∧
        later.Pairwise fun a b => a.stop ≤ b.begin) ->
      (forall t, t ∈ later -> i ≤ t.begin ∧ t.begin ≤ t.stop) ∧
        later.Pairwise fun a b => a.stop ≤ b.begin := by
    intro later i hlater
    exact ⟨fun t ht => ⟨(Nat.le_succ i).trans (hlater.1 t ht).1, (hlater.1 t ht).2⟩, hlater.2⟩
  induction i, stack, expectKey, text using scan.induct with
  | case1 i stack expectKey =>
      rw [scan]
      exact ⟨fun s hs => (List.not_mem_nil hs).elim, List.Pairwise.nil⟩
  | case2 i stack expectKey c rest hopen ih =>
      rw [scan, if_pos hopen]
      exact hnext _ _ ih
  | case3 i stack expectKey c rest hopen hclose ih =>
      rw [scan, if_neg hopen, if_pos hclose]
      exact hnext _ _ ih
  | case4 i stack expectKey rest next hopen hclose ih =>
      rw [scan, if_neg hopen, if_neg hclose, if_pos rfl]
      exact hnext _ _ ih
  | case5 i stack expectKey c rest hopen hclose hcomma hskip ih =>
      rw [scan, if_neg hopen, if_neg hclose, if_neg hcomma, if_pos hskip]
      exact hnext _ _ ih
  | case6 i stack expectKey rest string later stop next hopen hclose hcomma hskip ih =>
      rw [scan, if_neg hopen, if_neg hclose, if_neg hcomma, if_neg hskip, if_pos rfl]
      apply hcons _ _ _ rfl _ ih
      show i ≤ i + 1 + _
      omega
  | case7 i stack expectKey c rest hopen hclose hcomma hskip hquote run ih =>
      rw [scan, if_neg hopen, if_neg hclose, if_neg hcomma, if_neg hskip, if_neg hquote]
      apply hcons _ _ _ rfl _ ih
      show i ≤ i + _
      omega

theorem Locator.at_of_mem {xmlSpans : Bytes -> List Span} {l : Locator} {s : Span}
    {offset : Nat} (hjson : extension l.path = ascii ".json") (hs : s ∈ jsonSpans l.text)
    (hbegin : s.begin ≤ offset) (hstop : offset < s.stop) :
    l.at xmlSpans offset = s.locator := by
  have hbuild : l.build xmlSpans = jsonSpans l.text := if_pos hjson
  obtain ⟨hbounds, hordered⟩ := scan_ordered 0 [] false l.text
  obtain ⟨before, after, hsplit⟩ := List.append_of_mem hs
  have hsplit' : jsonSpans l.text = (before ++ [s]) ++ after := by
    rw [hsplit, List.append_assoc, List.singleton_append]
  rw [show scan 0 [] false l.text = _ from hsplit'] at hordered hbounds
  rw [List.pairwise_append] at hordered
  have hfound : Sorting.upperBound (fun s => decide (offset < s.begin)) (jsonSpans l.text) =
      before.length + 1 := by
    rw [Sorting.upperBound_append _ _ (before ++ [s]) after hsplit']
    · rw [List.length_append, List.length_singleton]
    · intro t ht
      rw [decide_eq_false_iff_not, Nat.not_lt]
      cases List.mem_append.mp ht with
      | inl ht =>
          have hstart := (hbounds t (List.mem_append_left _
            (List.mem_append_left _ ht))).2
          have hbefore := (List.pairwise_append.mp hordered.1).2.2 t ht s
            (List.mem_singleton_self s)
          omega
      | inr ht =>
          cases List.mem_singleton.mp ht
          exact hbegin
    · intro t ht
      rw [decide_eq_true_iff]
      have hafter := hordered.2.2 s (List.mem_append_right _ (List.mem_singleton_self s)) t ht
      omega
  rw [Locator.at, hbuild]
  simp only [hfound]
  rw [hsplit, List.getElem?_append_right le_rfl, Nat.sub_self]
  rfl

/-!
## Steps of the tokenizer
-/

open JsonGrammar

theorem scan_open_object (i : Nat) (stack : List Frame) (expectKey : Bool) (rest : Bytes) :
    scan i stack expectKey (text "\x7b" ++ rest) =
      scan (i + 1) (⟨true, current stack, [], 0⟩ :: stack) true rest := by
  show scan i stack expectKey ('\x7b'.toUInt8 :: rest) = _
  rw [scan, if_pos (Or.inl rfl)]
  rfl

theorem scan_open_array (i : Nat) (stack : List Frame) (expectKey : Bool) (rest : Bytes) :
    scan i stack expectKey (text "[" ++ rest) =
      scan (i + 1) (⟨false, current stack, [], 0⟩ :: stack) false rest := by
  show scan i stack expectKey ('['.toUInt8 :: rest) = _
  rw [scan, if_pos (Or.inr rfl)]
  rfl

theorem scan_close_object (i : Nat) (top : Frame) (stack : List Frame) (expectKey : Bool)
    (rest : Bytes) :
    scan i (top :: stack) expectKey (text "\x7d" ++ rest) = scan (i + 1) stack false rest := by
  show scan i (top :: stack) expectKey ('\x7d'.toUInt8 :: rest) = _
  rw [scan, if_neg (by decide), if_pos (Or.inl rfl)]
  rfl

theorem scan_close_array (i : Nat) (top : Frame) (stack : List Frame) (expectKey : Bool)
    (rest : Bytes) :
    scan i (top :: stack) expectKey (text "]" ++ rest) = scan (i + 1) stack false rest := by
  show scan i (top :: stack) expectKey (']'.toUInt8 :: rest) = _
  rw [scan, if_neg (by decide), if_pos (Or.inr rfl)]
  rfl

theorem scan_comma (i : Nat) (stack : List Frame) (expectKey : Bool) (rest : Bytes) :
    scan i stack expectKey (text "," ++ rest) =
      scan (i + 1) (comma stack expectKey).1 (comma stack expectKey).2 rest := by
  show scan i stack expectKey (','.toUInt8 :: rest) = _
  rw [scan, if_neg (by decide), if_neg (by decide), if_pos rfl]

theorem scan_colon (i : Nat) (stack : List Frame) (expectKey : Bool) (rest : Bytes) :
    scan i stack expectKey (text ":" ++ rest) = scan (i + 1) stack expectKey rest := by
  show scan i stack expectKey (':'.toUInt8 :: rest) = _
  rw [scan, if_neg (by decide), if_neg (by decide), if_neg (by decide), if_pos (Or.inl rfl)]

theorem scan_blank (i : Nat) (stack : List Frame) (expectKey : Bool) (blank : Blank)
    (rest : Bytes) :
    scan i stack expectKey (blank.bytes ++ rest) =
      scan (i + blank.bytes.length) stack expectKey rest := by
  have hblank := blank.blank
  generalize blank.bytes = bytes at hblank
  induction bytes generalizing i with
  | nil => rfl
  | cons c bytes ih =>
      rw [List.forall_mem_cons] at hblank
      have hspace : forall c, c ∈ text " \t\n\r" ->
          ¬(c = '\x7b'.toUInt8 ∨ c = '['.toUInt8) ∧ ¬(c = '\x7d'.toUInt8 ∨ c = ']'.toUInt8) ∧
            ¬c = ','.toUInt8 ∧ isSpace c := by decide
      obtain ⟨hopen, hclose, hcomma, hspace⟩ := hspace c hblank.1
      rw [List.cons_append, scan, if_neg hopen, if_neg hclose, if_neg hcomma,
        if_pos (Or.inr hspace), ih _ hblank.2, List.length_cons, Nat.add_right_comm,
        Nat.add_assoc]

/-- The rest of a text ends the number or literal before it. -/
def Ends (rest : Bytes) : Prop := forall c, rest.head? = some c -> isStop c = true

/-- The bytes of numbers and literals. -/
def isAtom (c : UInt8) : Bool := (ascii "+-.0123456789Eaeflnrstu").contains c

/-- The bytes are all bytes of numbers and literals. -/
def Atom (bytes : Bytes) : Prop := forall c, c ∈ bytes -> isAtom c = true

theorem scan_atom (i : Nat) (stack : List Frame) (expectKey : Bool) {bytes rest : Bytes}
    (hne : bytes ≠ []) (hatom : Atom bytes) (hends : Ends rest) :
    scan i stack expectKey (bytes ++ rest) =
      ⟨i, i + bytes.length, current stack⟩ :: scan (i + bytes.length) stack expectKey rest := by
  have hbyte : forall c, isAtom c = true ->
      ¬(c = '\x7b'.toUInt8 ∨ c = '['.toUInt8) ∧ ¬(c = '\x7d'.toUInt8 ∨ c = ']'.toUInt8) ∧
        ¬c = ','.toUInt8 ∧ ¬(c = ':'.toUInt8 ∨ isSpace c = true) ∧ ¬c = '"'.toUInt8 ∧
          isStop c = false := by
    apply Bytes.forall_byte
    decide +kernel
  obtain ⟨c, bytes, rfl⟩ := List.exists_cons_of_ne_nil hne
  unfold Atom at hatom
  rw [List.forall_mem_cons] at hatom
  obtain ⟨hopen, hclose, hcomma, hskip, hquote, -⟩ := hbyte c hatom.1
  have hrun : forall b, b ∈ bytes -> (!isStop b) = true := by
    intro b hb
    rw [(hbyte b (hatom.2 b hb)).2.2.2.2.2]
    rfl
  have hstop : rest.takeWhile (fun c => !isStop c) = [] ∧
      rest.dropWhile (fun c => !isStop c) = rest := by
    cases rest with
    | nil => exact ⟨rfl, rfl⟩
    | cons d rest =>
        have hd : isStop d = true := hends d rfl
        rw [List.takeWhile_cons, List.dropWhile_cons, hd]
        exact ⟨rfl, rfl⟩
  rw [List.cons_append, scan, if_neg hopen, if_neg hclose, if_neg hcomma, if_neg hskip,
    if_neg hquote, List.takeWhile_append_of_pos hrun, List.dropWhile_append_of_pos hrun,
    hstop.1, hstop.2, List.append_nil]

theorem scanString_plain {c : UInt8} (hquote : c ≠ '"'.toUInt8) (hslash : c ≠ '\\'.toUInt8)
    (rest : Bytes) :
    scanString (c :: rest) = (c :: (scanString rest).1, (scanString rest).2) := by
  cases rest with
  | nil => simp only [scanString, if_neg hquote]
  | cons d rest => rw [scanString, if_neg hquote, if_neg hslash]

theorem scanString_escape (d : UInt8) (rest : Bytes) :
    scanString ('\\'.toUInt8 :: d :: rest) = (d :: (scanString rest).1, (scanString rest).2) := by
  rw [scanString, if_neg (by decide), if_pos rfl]

theorem scanString_quote (rest : Bytes) :
    scanString (text "\"" ++ rest) = ([], text "\"" ++ rest) := by
  show scanString ('"'.toUInt8 :: rest) = _
  cases rest with
  | nil => rfl
  | cons d rest =>
      rw [scanString, if_pos rfl]
      rfl

theorem scanString_hex {c : UInt8} (h : c ∈ text "0123456789abcdefABCDEF") (rest : Bytes) :
    scanString (c :: rest) = (c :: (scanString rest).1, (scanString rest).2) := by
  have hplain : forall c, c ∈ text "0123456789abcdefABCDEF" ->
      c ≠ '"'.toUInt8 ∧ c ≠ '\\'.toUInt8 := by decide
  exact scanString_plain (hplain c h).1 (hplain c h).2 rest

theorem scanString_piece (piece : Piece) (rest : Bytes) :
    exists content,
      scanString (piece.bytes ++ rest) = (content ++ (scanString rest).1, (scanString rest).2) := by
  cases piece with
  | plain b hb => exact ⟨[b], scanString_plain hb.2.1 hb.2.2 rest⟩
  | escape b hb => exact ⟨[b], scanString_escape b rest⟩
  | unicode a b c d hex =>
      refine ⟨['u'.toUInt8, a, b, c, d], ?_⟩
      simp only [List.forall_mem_cons] at hex
      show scanString ('\\'.toUInt8 :: 'u'.toUInt8 :: a :: b :: c :: d :: rest) = _
      rw [scanString_escape, scanString_hex hex.1, scanString_hex hex.2.1,
        scanString_hex hex.2.2.1, scanString_hex hex.2.2.2.1]
      rfl

theorem scanString_pieces (pieces : List Piece) (rest : Bytes) :
    exists content,
      scanString (pieces.flatMap Piece.bytes ++ (text "\"" ++ rest)) =
        (content, text "\"" ++ rest) := by
  induction pieces with
  | nil => exact ⟨[], scanString_quote rest⟩
  | cons piece pieces ih =>
      obtain ⟨content, hcontent⟩ := ih
      obtain ⟨first, hfirst⟩ := scanString_piece piece
        (pieces.flatMap Piece.bytes ++ (text "\"" ++ rest))
      rw [hcontent] at hfirst
      rw [List.flatMap_cons, List.append_assoc]
      exact ⟨_, hfirst⟩

theorem scanString_key (key : Key) (rest : Bytes) :
    scanString (key.flatMap KeyPiece.bytes ++ (text "\"" ++ rest)) =
      (key.name, text "\"" ++ rest) := by
  induction key with
  | nil => exact scanString_quote rest
  | cons piece key ih =>
      rw [List.flatMap_cons, List.append_assoc]
      cases piece with
      | plain b hb =>
          show scanString (b :: (key.flatMap KeyPiece.bytes ++ (text "\"" ++ rest))) = _
          rw [scanString_plain hb.2.1 hb.2.2, ih]
          rfl
      | escape b hb =>
          show scanString ('\\'.toUInt8 :: b ::
            (key.flatMap KeyPiece.bytes ++ (text "\"" ++ rest))) = _
          rw [scanString_escape, ih]
          rfl

theorem scan_string (i : Nat) (stack : List Frame) (expectKey : Bool) {content body rest : Bytes}
    (h : scanString (body ++ (text "\"" ++ rest)) = (content, text "\"" ++ rest)) :
    scan i stack expectKey (quoted body ++ rest) =
      ⟨i, i + (quoted body).length, current (keyed content stack expectKey).1⟩ ::
        scan (i + (quoted body).length) (keyed content stack expectKey).1
          (keyed content stack expectKey).2 rest := by
  have hlength : 1 + ((body ++ (text "\"" ++ rest)).length - rest.length) =
      (quoted body).length := by
    simp only [quoted, List.length_append, length_text]
    have hone : "\"".length = 1 := rfl
    omega
  have hquoted : quoted body ++ rest = '"'.toUInt8 :: (body ++ (text "\"" ++ rest)) := by
    rw [quoted, List.append_assoc, List.append_assoc]
    rfl
  rw [hquoted, scan, if_neg (by decide), if_neg (by decide), if_neg (by decide),
    if_neg (by decide), if_pos rfl, h]
  show ⟨i, i + 1 + ((body ++ (text "\"" ++ rest)).length - rest.length), _⟩ ::
    scan (i + 1 + ((body ++ (text "\"" ++ rest)).length - rest.length)) _ _ rest = _
  rw [Nat.add_assoc, hlength]

/-!
## The tokens of a tree
-/

def spanOf (t : Token) : Span := ⟨t.offset, t.offset + t.bytes.length, pointer t.path⟩

theorem pointerToken_eq (name : Bytes) : pointerToken name = escapeToken name := rfl

theorem current_array (path : List Text) (key : Bytes) (k : Nat) (stack : List Frame) :
    current (⟨false, pointer path, key, k⟩ :: stack) = pointer (path ++ [text (toString k)]) := by
  rw [pointer_concat, escapeToken_number]
  rfl

theorem current_object (path : List Text) (name : Bytes) (k : Nat) (stack : List Frame) :
    current (⟨true, pointer path, name, k⟩ :: stack) = pointer (path ++ [name]) := by
  rw [pointer_concat, ← pointerToken_eq]
  rfl

theorem Atom.append {xs ys : Bytes} (hxs : Atom xs) (hys : Atom ys) : Atom (xs ++ ys) := by
  intro c hc
  cases List.mem_append.mp hc with
  | inl hc => exact hxs c hc
  | inr hc => exact hys c hc

theorem atom_literal (l : Literal) : l.bytes ≠ [] ∧ Atom l.bytes := by
  unfold Atom
  cases l with
  | null => decide
  | yes => decide
  | no => decide

theorem atom_digits (ds : Digits) : Atom ds.bytes := by
  intro c hc
  have hdigit : Atom (text "0123456789") := by
    unfold Atom
    decide
  exact hdigit c (ds.digits c hc)

theorem atom_exponent (e : Exponent) : Atom e.bytes := by
  have hmark : Atom (if e.upper then text "E" else text "e") := by
    unfold Atom
    cases e.upper with
    | true => decide
    | false => decide
  have hsign : Atom (e.sign.elim [] fun minus => if minus then text "-" else text "+") := by
    unfold Atom
    cases e.sign with
    | none => decide
    | some minus =>
        cases minus with
        | true => decide
        | false => decide
  exact (hmark.append hsign).append (atom_digits e.digits)

theorem atom_number (n : Number) : n.bytes ≠ [] ∧ Atom n.bytes := by
  have hminus : Atom (if n.minus then text "-" else []) := by
    unfold Atom
    cases n.minus with
    | true => decide
    | false => decide
  have hfrac : Atom (n.frac.elim [] fun ds => text "." ++ ds.bytes) := by
    cases n.frac with
    | none => exact fun c hc => (List.not_mem_nil hc).elim
    | some ds =>
        have hdot : Atom (text ".") := by
          unfold Atom
          decide
        exact hdot.append (atom_digits ds)
  have hexp : Atom (n.exp.elim [] Exponent.bytes) := by
    cases n.exp with
    | none => exact fun c hc => (List.not_mem_nil hc).elim
    | some e => exact atom_exponent e
  constructor
  · intro hempty
    rw [Number.bytes, List.append_assoc, List.append_assoc, List.append_eq_nil_iff,
      List.append_eq_nil_iff] at hempty
    exact n.int.nonempty hempty.2.1
  · exact ((hminus.append (atom_digits n.int)).append hfrac).append hexp

theorem ends_blank (blank : Blank) {rest : Bytes} (h : Ends rest) : Ends (blank.bytes ++ rest) := by
  have hblank := blank.blank
  cases hbytes : blank.bytes with
  | nil => exact h
  | cons c bytes =>
      intro d hd
      cases hd
      have hstop : forall c, c ∈ text " \t\n\r" -> isStop c = true := by decide
      exact hstop c (hblank c (hbytes ▸ List.mem_cons_self))

theorem ends_of_text {s : String} {rest : Bytes} (c : UInt8) (h : (text s).head? = some c)
    (hc : isStop c = true) : Ends (text s ++ rest) := by
  intro d hd
  rw [List.head?_append, h] at hd
  cases hd
  exact hc

/-- A key and its colon, with the blanks around them. -/
theorem scan_key (before : Blank) (name : Key) (colon start : Blank) (i : Nat)
    (stack : List Frame) (path : List Text) (key : Bytes) (k : Nat) (rest : Bytes) :
    scan i (⟨true, pointer path, key, k⟩ :: stack) true
        (before.bytes ++ (name.bytes ++ (colon.bytes ++ (text ":" ++ (start.bytes ++ rest))))) =
      ⟨i + before.bytes.length, i + before.bytes.length + name.bytes.length,
          pointer (path ++ [name.name])⟩ ::
        scan (i + before.bytes.length + name.bytes.length + colon.bytes.length + 1 +
            start.bytes.length)
          (⟨true, pointer path, name.name, k⟩ :: stack) false rest := by
  have hkeyed : keyed name.name (⟨true, pointer path, key, k⟩ :: stack) true =
      (⟨true, pointer path, name.name, k⟩ :: stack, false) := rfl
  rw [scan_blank, Key.bytes, scan_string _ _ true (scanString_key name _), hkeyed,
    current_object, scan_blank, scan_colon, scan_blank]

mutual

theorem scan_value (v : Value) (i : Nat) (stack : List Frame) (path : List Text) (rest : Bytes)
    (hcurrent : current stack = pointer path) (hends : Ends rest) :
    scan i stack false (v.bytes ++ rest) =
      (v.tokens i path).map spanOf ++ scan (i + v.bytes.length) stack false rest := by
  cases v with
  | literal l =>
      obtain ⟨hne, hatom⟩ := atom_literal l
      rw [Value.bytes, scan_atom i stack false hne hatom hends, hcurrent]
      rfl
  | number n =>
      obtain ⟨hne, hatom⟩ := atom_number n
      rw [Value.bytes, scan_atom i stack false hne hatom hends, hcurrent]
      rfl
  | string pieces =>
      obtain ⟨content, hcontent⟩ := scanString_pieces pieces rest
      have hkeyed : keyed content stack false = (stack, false) := by
        cases stack with
        | nil => rfl
        | cons top below => rfl
      rw [Value.bytes, scan_string i stack false hcontent, hkeyed, hcurrent]
      rfl
  | emptyArray inside =>
      rw [Value.bytes, List.append_assoc, List.append_assoc, scan_open_array, scan_blank,
        scan_close_array]
      simp only [Value.tokens, List.map_nil, List.nil_append, List.length_append, length_text,
        Nat.add_assoc]
      rfl
  | array items =>
      rw [Value.bytes, List.append_assoc, List.append_assoc, scan_open_array, hcurrent,
        scan_items items (i + 1) stack path [] 0 rest]
      simp only [Value.tokens, List.length_append, length_text, Nat.add_assoc]
      rfl
  | emptyObject inside =>
      rw [Value.bytes, List.append_assoc, List.append_assoc, scan_open_object, scan_blank,
        scan_close_object]
      simp only [Value.tokens, List.map_nil, List.nil_append, List.length_append, length_text,
        Nat.add_assoc]
      rfl
  | object members =>
      rw [Value.bytes, List.append_assoc, List.append_assoc, scan_open_object, hcurrent,
        scan_members members (i + 1) stack path [] 0 rest]
      simp only [Value.tokens, List.length_append, length_text, Nat.add_assoc]
      rfl

theorem scan_items (items : Items) (i : Nat) (stack : List Frame) (path : List Text)
    (key : Bytes) (k : Nat) (rest : Bytes) :
    scan i (⟨false, pointer path, key, k⟩ :: stack) false (items.bytes ++ (text "]" ++ rest)) =
      (items.tokens i path k).map spanOf ++
        scan (i + items.bytes.length + 1) stack false rest := by
  cases items with
  | last before value after =>
      rw [Items.bytes, List.append_assoc, List.append_assoc, scan_blank,
        scan_value value _ _ _ _ (current_array path key k stack)
          (ends_blank after (ends_of_text ']'.toUInt8 rfl (by decide))), scan_blank,
        scan_close_array]
      simp only [Items.tokens, List.length_append, Nat.add_assoc]
  | more before value after more =>
      rw [Items.bytes]
      simp only [List.append_assoc]
      rw [scan_blank, scan_value value _ _ _ _ (current_array path key k stack)
          (ends_blank after (ends_of_text ','.toUInt8 rfl (by decide))), scan_blank, scan_comma]
      show _ ++ scan _ (⟨false, pointer path, key, k + 1⟩ :: stack) false _ = _
      rw [scan_items more _ stack path key (k + 1) rest]
      simp only [Items.tokens, List.map_append, List.append_assoc, List.length_append,
        length_text, Nat.add_assoc]
      rfl

theorem scan_members (members : Members) (i : Nat) (stack : List Frame) (path : List Text)
    (key : Bytes) (k : Nat) (rest : Bytes) :
    scan i (⟨true, pointer path, key, k⟩ :: stack) true
        (members.bytes ++ (text "\x7d" ++ rest)) =
      (members.tokens i path).map spanOf ++
        scan (i + members.bytes.length + 1) stack false rest := by
  cases members with
  | last before name colon start value after =>
      rw [Members.bytes]
      simp only [List.append_assoc]
      rw [scan_key, scan_value value _ _ _ _ (current_object path name.name k stack)
        (ends_blank after (ends_of_text '\x7d'.toUInt8 rfl (by decide))), scan_blank,
        scan_close_object]
      simp only [Members.tokens, spanOf, List.map_cons, List.cons_append, List.length_append,
        length_text, Nat.add_assoc]
      rfl
  | more before name colon start value after more =>
      rw [Members.bytes]
      simp only [List.append_assoc]
      rw [scan_key, scan_value value _ _ _ _ (current_object path name.name k stack)
        (ends_blank after (ends_of_text ','.toUInt8 rfl (by decide))), scan_blank, scan_comma]
      show _ :: (_ ++ scan _ (⟨true, pointer path, name.name, k⟩ :: stack) true _) = _
      rw [scan_members more _ stack path name.name k rest]
      simp only [Members.tokens, spanOf, List.map_cons, List.map_append, List.cons_append,
        List.append_assoc, List.length_append, length_text, Nat.add_assoc]
      rfl

end

theorem jsonSpans_document (doc : Document) : jsonSpans doc.bytes = doc.tokens.map spanOf := by
  have hends : Ends (doc.after.bytes ++ []) :=
    ends_blank doc.after fun c hc => by cases hc
  rw [jsonSpans, Document.bytes, List.append_assoc, scan_blank,
    ← List.append_nil doc.after.bytes, scan_value doc.value _ [] [] _ rfl hends, scan_blank,
    scan, List.append_nil, Nat.zero_add]
  rfl

/-- At every offset in a token of a JSON text the locator is the pointer of the path that leads
to the value of the token. -/
theorem Locator.at_token (xmlSpans : Bytes -> List Span) (path : Bytes) (doc : Document)
    (hjson : extension path = ascii ".json") (t : Token) (ht : t ∈ doc.tokens) (offset : Nat)
    (hbegin : t.offset ≤ offset) (hstop : offset < t.offset + t.bytes.length) :
    t.Of 0 doc.bytes ∧ Leads doc.value t.path t.value ∧
      Locator.at xmlSpans ⟨path, doc.bytes⟩ offset = pointer t.path := by
  refine ⟨?_, ?_, ?_⟩
  · have hvalue := Value.tokens_of ht
    rw [← Nat.zero_add doc.before.bytes.length] at hvalue
    exact hvalue.shift doc.before.bytes doc.after.bytes
  · obtain ⟨tail, hpath, hleads⟩ := Value.tokens_leads ht
    rw [List.nil_append] at hpath
    rwa [hpath]
  · have hspan : spanOf t ∈ jsonSpans doc.bytes := by
      rw [jsonSpans_document]
      exact List.mem_map_of_mem ht
    exact Locator.at_of_mem (s := spanOf t) hjson hspan hbegin hstop

def noBlank : Blank := ⟨[], fun _ h => (List.not_mem_nil h).elim⟩

/-- The text `{"a/b":[{},null]}`. -/
def nestedDocument : Document :=
  let key : Key := [.plain 'a'.toUInt8 (by unfold Unescaped; decide),
    .plain '/'.toUInt8 (by unfold Unescaped; decide),
    .plain 'b'.toUInt8 (by unfold Unescaped; decide)]
  let items : Items := .more noBlank (.emptyObject noBlank) noBlank
    (.last noBlank (.literal .null) noBlank)
  ⟨noBlank, .object (.last noBlank key noBlank noBlank (.array items) noBlank), noBlank⟩

def nestedNull : Token :=
  ⟨11, text "null", false, .literal .null, [text "a/b", text "1"]⟩

theorem Locator.at_token_nested :
    nestedNull.Of 0 nestedDocument.bytes ∧
      Leads nestedDocument.value nestedNull.path nestedNull.value ∧
      Locator.at (fun _ => []) ⟨ascii "links.json", nestedDocument.bytes⟩ 13 =
        pointer nestedNull.path :=
  Locator.at_token (fun _ => []) (ascii "links.json") nestedDocument (by decide) nestedNull
    (List.mem_of_getElem? (i := 1) rfl) 13 (by decide) (by decide)

end JsonSpans
end Capture
end Ostia

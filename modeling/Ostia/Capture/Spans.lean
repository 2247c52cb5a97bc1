import Ostia.Capture.JsonSpans
import Ostia.Foundation.While

/-!
# The span scanners

The loops that cut a JSON or an XML text into spans, byte by byte as the tool runs them.  On any
bytes they end, and the spans they leave stand in order inside the text.
-/

namespace Ostia
namespace Capture
namespace Spans

open Foundation Foundation.While JsonSpans Bytes

/-!
## Reading a text
-/

/-- The first offset from j on whose byte does not meet a test. -/
def skip (text : Bytes) (p : UInt8 -> Bool) (j : Nat) : Nat :=
  j + ((text.drop j).takeWhile p).length

def startsWith (text : Bytes) (i : Nat) (s : String) : Bool := (ascii s).isPrefixOf (text.drop i)

/-!
## JSON
-/

structure JsonState where
  i : Nat
  stack : List Frame
  expectKey : Bool
  spans : List Span

def jsonBody (text : Bytes) (s : JsonState) : Option (Turn JsonState) :=
  match text[s.i]? with
  | none => none
  | some c =>
      if c = '\x7b'.toUInt8 ∨ c = '['.toUInt8 then
        some (.again { s with
          i := s.i + 1
          stack := ⟨c = '\x7b'.toUInt8, current s.stack, [], 0⟩ :: s.stack
          expectKey := c = '\x7b'.toUInt8 })
      else if c = '\x7d'.toUInt8 ∨ c = ']'.toUInt8 then
        some (.again { s with i := s.i + 1, stack := s.stack.tail, expectKey := false })
      else if c = ','.toUInt8 then
        let next := comma s.stack s.expectKey
        some (.again { s with i := s.i + 1, stack := next.1, expectKey := next.2 })
      else if c = ':'.toUInt8 ∨ isSpace c then some (.again { s with i := s.i + 1 })
      else if c = '"'.toUInt8 then
        let string := scanString (text.drop (s.i + 1))
        let j := text.length - string.2.length
        let stop := min (j + 1) text.length
        let next := keyed string.1 s.stack s.expectKey
        some (.again ⟨stop, next.1, next.2, s.spans ++ [⟨s.i, stop, current next.1⟩]⟩)
      else
        let j := skip text (fun c => !isStop c) s.i
        some (.again { s with i := j, spans := s.spans ++ [⟨s.i, j, current s.stack⟩] })

/-- The spans of a JSON text, if the scanner ends within a number of turns. -/
def runJson (text : Bytes) (fuel : Nat) : Option (List Span) :=
  (run (fun s => decide (s.i < text.length)) (jsonBody text) fuel ⟨0, [], false, []⟩).map
    JsonState.spans

/-!
## XML
-/

/-- The path of the element that the scanner is in; the last name is the innermost. -/
def path (stack : List Bytes) : Bytes := stack.flatMap fun name => ascii "/" ++ name

def isNameEnd (c : UInt8) : Bool :=
  c = '/'.toUInt8 ∨ c = '>'.toUInt8 ∨ c = '='.toUInt8 ∨ isSpace c

def isValueStart (c : UInt8) : Bool :=
  c = '"'.toUInt8 ∨ c = '\''.toUInt8 ∨ c = '>'.toUInt8

def skipPast (text : Bytes) (start : Nat) (stop : String) : Nat :=
  match find text (ascii stop) start with
  | none => text.length
  | some found => found + stop.length

/-- The loop over the attributes of a tag. -/
structure TagState where
  j : Nat
  closed : Bool
  spans : List Span

def tagBody (text locator : Bytes) (s : TagState) : Option (Turn TagState) :=
  match text[s.j]? with
  | none => none
  | some c =>
      if c = '>'.toUInt8 then some (.leave { s with j := s.j + 1 })
      else if c = '/'.toUInt8 then some (.again { s with j := s.j + 1, closed := true })
      else if isSpace c then some (.again { s with j := s.j + 1 })
      else
        let nameEnd := skip text (fun c => !isNameEnd c) s.j
        let attr := (text.drop s.j).take (nameEnd - s.j)
        let j := skip text (fun c => !isValueStart c) nameEnd
        match text[j]? with
        | none => some (.again { s with j := j })
        | some quote =>
            if quote = '>'.toUInt8 then some (.again { s with j := j })
            else
              let valueBegin := j + 1
              let valueEnd := (find text [quote] valueBegin).getD text.length
              some (.again { s with
                j := min (valueEnd + 1) text.length
                spans := s.spans ++
                  [⟨valueBegin, valueEnd, locator ++ ascii "/@" ++ attr⟩] })

structure XmlState where
  i : Nat
  stack : List Bytes
  spans : List Span

/-- An opening tag with its attributes. -/
def openTag (text : Bytes) (fuel : Nat) (s : XmlState) : Option XmlState :=
  let j := skip text (fun c => !isNameEnd c) (s.i + 1)
  let stack := s.stack ++ [(text.drop (s.i + 1)).take (j - s.i - 1)]
  let spans := s.spans ++ [⟨s.i, j, path stack⟩]
  let tag := run (fun t => decide (t.j < text.length)) (tagBody text (path stack)) fuel
    ⟨j, false, spans⟩
  tag.map fun t => ⟨t.j, if t.closed then stack.dropLast else stack, t.spans⟩

def xmlBody (text : Bytes) (fuel : Nat) (s : XmlState) : Option (Turn XmlState) :=
  match text[s.i]? with
  | none => none
  | some c =>
      if c ≠ '<'.toUInt8 then
        let next := (find text (ascii "<") s.i).getD text.length
        some (.again { s with i := next, spans := s.spans ++ [⟨s.i, next, path s.stack⟩] })
      else if startsWith text s.i "<!--" then
        some (.again { s with i := skipPast text s.i "-->" })
      else if startsWith text s.i "<?" || startsWith text s.i "<!" then
        some (.again { s with i := skipPast text s.i ">" })
      else if startsWith text s.i "</" then
        some (.again { s with i := skipPast text s.i ">", stack := s.stack.dropLast })
      else (openTag text fuel s).map .again

/-- The spans of an XML text, if the scanner and its inner loops end within a number of turns. -/
def runXml (text : Bytes) (fuel : Nat) : Option (List Span) :=
  (run (fun s => decide (s.i < text.length)) (xmlBody text fuel) fuel ⟨0, [], []⟩).map
    XmlState.spans

/-- An XML text has no more tokens than bytes. -/
def xmlSpans (text : Bytes) : List Span := (runXml text text.length).getD []

/-!
## Steps through a text
-/

theorem le_skip (text : Bytes) (p : UInt8 -> Bool) (j : Nat) : j ≤ skip text p j :=
  Nat.le_add_right _ _

theorem skip_le {text : Bytes} (p : UInt8 -> Bool) {j : Nat} (h : j ≤ text.length) :
    skip text p j ≤ text.length := by
  have hlength := (List.takeWhile_sublist (l := text.drop j) p).length_le
  rw [List.length_drop] at hlength
  unfold skip
  omega

theorem lt_skip {text : Bytes} {p : UInt8 -> Bool} {j : Nat} {c : UInt8}
    (h : text[j]? = some c) (hc : p c = true) : j < skip text p j := by
  unfold skip
  rw [drop_eq_cons h, List.takeWhile_cons, if_pos hc, List.length_cons]
  omega

theorem find_getD_bounds {text bytes : Bytes} {start : Nat} (hne : bytes ≠ [])
    (hstart : start ≤ text.length) :
    start ≤ (find text bytes start).getD text.length ∧
      (find text bytes start).getD text.length ≤ text.length := by
  cases hfind : find text bytes start with
  | none => exact ⟨hstart, le_rfl⟩
  | some k =>
      have hbounds := find_bounds hne hfind
      show start ≤ k ∧ k ≤ text.length
      omega

theorem skipPast_bounds {text : Bytes} {start : Nat} {stop : String}
    (hne : ascii stop ≠ []) (hstart : start < text.length) :
    start < skipPast text start stop ∧ skipPast text start stop ≤ text.length := by
  have hlength : (ascii stop).length = stop.length := by
    rw [ascii, List.length_map, String.length_toList]
  have hpos := List.length_pos_of_ne_nil hne
  unfold skipPast
  cases hfind : find text (ascii stop) start with
  | none => exact ⟨hstart, le_rfl⟩
  | some k =>
      have hbounds := find_bounds hne hfind
      show start < k + stop.length ∧ k + stop.length ≤ text.length
      omega

/-!
## Spans in order
-/

/-- The spans lie in a text one after the other, and each begins after the one before it. -/
structure Spread (size : Nat) (spans : List Span) : Prop where
  within : forall s, s ∈ spans -> s.begin ≤ s.stop ∧ s.stop ≤ size
  increasing : spans.Pairwise fun a b => a.begin < b.begin
  apart : spans.Pairwise fun a b => a.stop ≤ b.begin

/-- What holds of the spans when a scanner is at an offset. -/
structure Laid (size i : Nat) (spans : List Span) : Prop where
  spread : Spread size spans
  inside : i ≤ size
  before : forall s, s ∈ spans -> s.stop ≤ i ∧ (s.begin < i ∨ size ≤ i)

theorem Laid.nil (size : Nat) : Laid size 0 [] := by
  constructor
  · constructor
    · intro s hs
      cases hs
    · exact List.Pairwise.nil
    · exact List.Pairwise.nil
  · exact Nat.zero_le size
  · intro s hs
    cases hs

theorem Laid.forward {size i i' : Nat} {spans : List Span} (h : Laid size i spans)
    (hi : i ≤ i') (hinside : i' ≤ size) : Laid size i' spans := by
  constructor
  · exact h.spread
  · exact hinside
  · intro s hs
    have hbefore := h.before s hs
    omega

/-- A span that is put after the others, from where the scanner is. -/
theorem Laid.push {size i i' : Nat} {spans : List Span} {s : Span} (h : Laid size i spans)
    (hi : i < size) (hbegin : i ≤ s.begin) (hspan : s.begin ≤ s.stop) (hstop : s.stop ≤ i')
    (hinside : i' ≤ size) (hpast : s.begin < i' ∨ size ≤ i') :
    Laid size i' (spans ++ [s]) := by
  have hbefore : forall a, a ∈ spans -> a.stop ≤ s.begin ∧ a.begin < s.begin := by
    intro a ha
    have hold := h.before a ha
    omega
  constructor
  · constructor
    · intro a ha
      rw [List.mem_append, List.mem_singleton] at ha
      cases ha with
      | inl ha => exact h.spread.within a ha
      | inr ha =>
          rw [ha]
          exact ⟨hspan, hstop.trans hinside⟩
    · rw [List.pairwise_append]
      refine ⟨h.spread.increasing, List.pairwise_singleton _ _, ?_⟩
      intro a ha b hb
      rw [List.mem_singleton.mp hb]
      exact (hbefore a ha).2
    · rw [List.pairwise_append]
      refine ⟨h.spread.apart, List.pairwise_singleton _ _, ?_⟩
      intro a ha b hb
      rw [List.mem_singleton.mp hb]
      exact (hbefore a ha).1
  · exact hinside
  · intro a ha
    rw [List.mem_append, List.mem_singleton] at ha
    cases ha with
    | inl ha =>
        have hold := h.before a ha
        omega
    | inr ha =>
        rw [ha]
        exact ⟨hstop, hpast⟩

/-!
## The scanners end
-/

theorem exists_byte {text : Bytes} {i : Nat} (h : i < text.length) :
    exists c, text[i]? = some c :=
  ⟨text[i], List.getElem?_eq_getElem h⟩

/-- The bytes that end a number or literal are handled before one can start. -/
theorem isStop_handled {c : UInt8} (hclose : ¬(c = '\x7d'.toUInt8 ∨ c = ']'.toUInt8))
    (hcomma : ¬c = ','.toUInt8) (hskip : ¬(c = ':'.toUInt8 ∨ isSpace c = true)) :
    isStop c = false := by
  have hstop : forall c, c ∈ ascii ",\x7d] \t\r\n" ->
      ((c = '\x7d'.toUInt8 ∨ c = ']'.toUInt8) ∨ c = ','.toUInt8) ∨ isSpace c = true := by
    decide
  cases hc : isStop c with
  | false => rfl
  | true =>
      cases hstop c (List.contains_iff_mem.mp hc) with
      | inl h => exact (h.elim hclose hcomma).elim
      | inr h => exact (hskip (Or.inr h)).elim

theorem scanString_suffix (text : Bytes) : (scanString text).2 <:+ text := by
  fun_induction scanString text with
  | case1 => exact List.suffix_rfl
  | case2 => exact List.suffix_rfl
  | case3 => exact List.nil_suffix
  | case4 => exact List.suffix_rfl
  | case5 d rest _ r ih =>
      exact (ih.trans (List.suffix_cons _ _)).trans (List.suffix_cons _ _)
  | case6 c d rest _ _ r ih => exact ih.trans (List.suffix_cons _ _)

/-- The end of a string that starts at an offset, and the text after it. -/
theorem string_stop {text : Bytes} {i : Nat} (hi : i < text.length) :
    let string := scanString (text.drop (i + 1))
    let stop := min (text.length - string.2.length + 1) text.length
    i < stop ∧ stop ≤ text.length ∧
      stop = i + 1 + ((text.drop (i + 1)).length - string.2.tail.length) ∧
      text.drop stop = string.2.tail := by
  intro string stop
  have hsuffix : string.2 <:+ text.drop (i + 1) := scanString_suffix _
  have hlength := hsuffix.length_le
  have htail : string.2.tail.length = string.2.length - 1 := List.length_tail
  rw [List.length_drop] at hlength
  have hstop : stop = i + 1 + ((text.drop (i + 1)).length - string.2.tail.length) := by
    show min (text.length - string.2.length + 1) text.length = _
    rw [htail, List.length_drop]
    omega
  refine ⟨?_, min_le_right _ _, hstop, ?_⟩
  · rw [hstop]
    omega
  · have hdrop := List.suffix_iff_eq_drop.mp ((List.tail_suffix string.2).trans hsuffix)
    rw [hstop, <- List.drop_drop]
    exact hdrop.symm

/-- A number or literal that starts at an offset, and the text after it. -/
theorem run_stop {text : Bytes} {i : Nat} {c : UInt8} {p : UInt8 -> Bool}
    (hc : text[i]? = some c) (hp : p c = true) :
    let rest := text.drop (i + 1)
    skip text p i = i + (c :: rest.takeWhile p).length ∧
      text.drop (skip text p i) = rest.dropWhile p := by
  intro rest
  have hskip : skip text p i = i + (c :: rest.takeWhile p).length := by
    unfold skip
    rw [drop_eq_cons hc, List.takeWhile_cons, if_pos hp]
  constructor
  · exact hskip
  · rw [hskip, <- List.drop_drop, drop_eq_cons hc, List.length_cons, List.drop_succ_cons]
    conv_lhs => rw [<- List.takeWhile_append_dropWhile (p := p) (l := text.drop (i + 1))]
    exact List.drop_left

/-- The spans so far and those of the rest of the text are the spans of the whole. -/
structure JsonInv (text : Bytes) (s : JsonState) : Prop where
  laid : Laid text.length s.i s.spans
  rest : s.spans ++ JsonSpans.scan s.i s.stack s.expectKey (text.drop s.i) = jsonSpans text

structure JsonDone (text : Bytes) (s : JsonState) : Prop where
  spread : Spread text.length s.spans
  spans : s.spans = jsonSpans text

def jsonLeft (text : Bytes) (s : JsonState) : Nat := text.length - s.i

/-- A turn that goes on from a later byte. -/
theorem JsonInv.again {text : Bytes} {s s' : JsonState} (h : JsonInv text s') (hi : s.i < s'.i) :
    Turns (JsonInv text) (JsonDone text) (jsonLeft text) s (some (.again s')) := by
  have hinside := h.laid.inside
  refine Or.inr ⟨s', rfl, h, ?_⟩
  unfold jsonLeft
  omega

theorem jsonBody_turns {text : Bytes} {s : JsonState} (h : JsonInv text s)
    (hi : s.i < text.length) :
    Turns (JsonInv text) (JsonDone text) (jsonLeft text) s (jsonBody text s) := by
  obtain ⟨c, hc⟩ := exists_byte hi
  have hrest := h.rest
  rw [drop_eq_cons hc, JsonSpans.scan] at hrest
  have hone : Laid text.length (s.i + 1) s.spans := h.laid.forward (Nat.le_succ _) hi
  unfold jsonBody
  rw [hc]
  simp only
  split_ifs at hrest ⊢ with hopen hclose hcomma hskip hquote
  · exact JsonInv.again ⟨hone, hrest⟩ (Nat.lt_succ_self _)
  · exact JsonInv.again ⟨hone, hrest⟩ (Nat.lt_succ_self _)
  · exact JsonInv.again ⟨hone, hrest⟩ (Nat.lt_succ_self _)
  · exact JsonInv.again ⟨hone, hrest⟩ (Nat.lt_succ_self _)
  · obtain ⟨hlt, hle, hstop, hdrop⟩ := string_stop hi
    refine JsonInv.again ⟨?_, ?_⟩ hlt
    · exact h.laid.push hi le_rfl hlt.le le_rfl hle (Or.inl hlt)
    · simp only
      rw [hdrop, List.append_assoc, hstop]
      exact hrest
  · have hp : (!isStop c) = true := by
      rw [isStop_handled hclose hcomma hskip]
      rfl
    obtain ⟨hstop, hdrop⟩ := run_stop (p := fun c => !isStop c) hc hp
    have hlt : s.i < skip text (fun c => !isStop c) s.i := lt_skip hc hp
    refine JsonInv.again ⟨?_, ?_⟩ hlt
    · exact h.laid.push hi le_rfl hlt.le le_rfl (skip_le _ hi.le) (Or.inl hlt)
    · simp only
      rw [hdrop, List.append_assoc, hstop]
      exact hrest

/-- The scanner of JSON texts ends on all bytes, with the spans of the text. -/
theorem runJson_total (text : Bytes) :
    Spread text.length (jsonSpans text) ∧
      forall fuel, text.length ≤ fuel -> runJson text fuel = some (jsonSpans text) := by
  have htotal : forall fuel, text.length ≤ fuel ->
      exists s, run (fun s => decide (s.i < text.length)) (jsonBody text) fuel
        ⟨0, [], false, []⟩ = some s ∧ JsonDone text s := by
    intro fuel hfuel
    apply @run_total JsonState _ _ (JsonInv text) _ (jsonLeft text)
    · intro s hs hguard
      have hend : text.length ≤ s.i := Nat.not_lt.mp (of_decide_eq_false hguard)
      have hrest := hs.rest
      rw [List.drop_eq_nil_of_le hend, JsonSpans.scan, List.append_nil] at hrest
      exact ⟨hs.laid.spread, hrest⟩
    · intro s hs hguard
      exact jsonBody_turns hs (of_decide_eq_true hguard)
    · exact ⟨Laid.nil _, rfl⟩
    · exact hfuel
  constructor
  · obtain ⟨s, _, hdone⟩ := htotal text.length le_rfl
    rw [<- hdone.spans]
    exact hdone.spread
  · intro fuel hfuel
    obtain ⟨s, hrun, hdone⟩ := htotal fuel hfuel
    unfold runJson
    rw [hrun, Option.map_some, hdone.spans]

structure TagInv (text : Bytes) (start : Nat) (s : TagState) : Prop where
  laid : Laid text.length s.j s.spans
  after : start ≤ s.j

def tagLeft (text : Bytes) (s : TagState) : Nat := text.length - s.j

theorem TagInv.again {text : Bytes} {start : Nat} {s s' : TagState} (h : TagInv text start s')
    (hj : s.j < s'.j) :
    Turns (TagInv text start) (TagInv text start) (tagLeft text) s (some (.again s')) := by
  have hinside := h.laid.inside
  refine Or.inr ⟨s', rfl, h, ?_⟩
  unfold tagLeft
  omega

/-- Whatever an attribute starts with is consumed: as its name, or on the way to its value. -/
theorem attribute_progress {text : Bytes} {j : Nat} {c : UInt8} (hc : text[j]? = some c)
    (hclose : ¬c = '>'.toUInt8) (hslash : ¬c = '/'.toUInt8) (hspace : ¬isSpace c = true) :
    j < skip text (fun c => !isValueStart c) (skip text (fun c => !isNameEnd c) j) := by
  cases hname : isNameEnd c with
  | false =>
      have hlt : j < skip text (fun c => !isNameEnd c) j :=
        lt_skip hc (by rw [hname]; rfl)
      exact hlt.trans_le (le_skip _ _ _)
  | true =>
      have hequals : c = '='.toUInt8 := by
        unfold isNameEnd at hname
        rw [decide_eq_true_iff] at hname
        tauto
      cases (le_skip text (fun c => !isNameEnd c) j).lt_or_eq with
      | inl hlt => exact hlt.trans_le (le_skip _ _ _)
      | inr heq =>
          rw [<- heq]
          apply lt_skip hc
          rw [hequals]
          decide

theorem tagBody_turns {text locator : Bytes} {start : Nat} {s : TagState}
    (h : TagInv text start s) (hj : s.j < text.length) :
    Turns (TagInv text start) (TagInv text start) (tagLeft text) s (tagBody text locator s) := by
  obtain ⟨c, hc⟩ := exists_byte hj
  have hone : Laid text.length (s.j + 1) s.spans := h.laid.forward (Nat.le_succ _) hj
  have hafter := h.after
  unfold tagBody
  rw [hc]
  simp only
  split_ifs with hclose hslash hspace
  · refine Or.inl ⟨_, rfl, ⟨hone, ?_⟩, ?_⟩
    · exact hafter.trans (Nat.le_succ _)
    · unfold tagLeft
      omega
  · exact TagInv.again ⟨hone, hafter.trans (Nat.le_succ _)⟩ (Nat.lt_succ_self _)
  · exact TagInv.again ⟨hone, hafter.trans (Nat.le_succ _)⟩ (Nat.lt_succ_self _)
  · have hlt := attribute_progress hc hclose hslash hspace
    have hle := skip_le (fun c => !isValueStart c)
      (skip_le (fun c => !isNameEnd c) hj.le)
    generalize skip text (fun c => !isValueStart c) (skip text (fun c => !isNameEnd c) s.j) = j
      at hlt hle
    have hforward : TagInv text start { s with j := j } :=
      ⟨h.laid.forward hlt.le hle, hafter.trans hlt.le⟩
    cases hquote : text[j]? with
    | none => exact TagInv.again hforward hlt
    | some quote =>
        obtain ⟨hinside, _⟩ := List.getElem?_eq_some_iff.mp hquote
        simp only
        split_ifs with hstop
        · exact TagInv.again hforward hlt
        · obtain ⟨hbegin, hend⟩ :=
            @find_getD_bounds text [quote] (j + 1) (List.cons_ne_nil _ _) hinside
          generalize (find text [quote] (j + 1)).getD text.length = valueEnd at hbegin hend
          have hnext : j + 1 ≤ min (valueEnd + 1) text.length := le_min (by omega) hinside
          refine TagInv.again ⟨?_, ?_⟩ (hlt.trans hnext)
          · apply h.laid.push hj
            · exact hlt.le.trans (Nat.le_succ _)
            · exact hbegin
            · exact le_min (Nat.le_succ _) hend
            · exact min_le_right _ _
            · show j + 1 < min (valueEnd + 1) text.length ∨
                text.length ≤ min (valueEnd + 1) text.length
              omega
          · exact hafter.trans (hlt.trans hnext).le

/-- The loop over the attributes of a tag ends. -/
theorem tag_total {text : Bytes} (locator : Bytes) {s : TagState}
    (h : Laid text.length s.j s.spans) {fuel : Nat} (hfuel : text.length ≤ fuel) :
    exists t, run (fun t => decide (t.j < text.length)) (tagBody text locator) fuel s = some t ∧
      TagInv text s.j t := by
  apply @run_total TagState _ _ (TagInv text s.j) _ (tagLeft text)
  · intro t ht _
    exact ht
  · intro t ht hguard
    exact tagBody_turns ht (of_decide_eq_true hguard)
  · exact ⟨h, le_rfl⟩
  · exact (Nat.sub_le _ _).trans hfuel

def xmlLeft (text : Bytes) (s : XmlState) : Nat := text.length - s.i

def XmlInv (text : Bytes) (s : XmlState) : Prop := Laid text.length s.i s.spans

theorem XmlInv.again {text : Bytes} {s s' : XmlState} (h : XmlInv text s') (hi : s.i < s'.i) :
    Turns (XmlInv text) (XmlInv text) (xmlLeft text) s (some (.again s')) := by
  have hinside := h.inside
  refine Or.inr ⟨s', rfl, h, ?_⟩
  unfold xmlLeft
  omega

/-- Text ends after the byte that it starts with. -/
theorem text_progress {text : Bytes} {i : Nat} {c : UInt8} (hc : text[i]? = some c)
    (hopen : c ≠ '<'.toUInt8) :
    i < (find text (ascii "<") i).getD text.length ∧
      (find text (ascii "<") i).getD text.length ≤ text.length := by
  obtain ⟨hi, _⟩ := List.getElem?_eq_some_iff.mp hc
  obtain ⟨hle, hend⟩ := @find_getD_bounds text (ascii "<") i (by decide) hi.le
  constructor
  · apply hle.lt_of_ne
    intro heq
    cases hfind : find text (ascii "<") i with
    | none =>
        rw [hfind] at heq
        exact hi.ne heq
    | some k =>
        rw [hfind] at heq
        have hfound : (ascii "<").isPrefixOf (text.drop k) = true := by
          simpa only using List.find?_some hfind
        rw [show k = i from heq.symm, drop_eq_cons hc] at hfound
        obtain ⟨later, hlater⟩ := List.isPrefixOf_iff_prefix.mp hfound
        exact hopen (List.cons.inj hlater).1.symm
  · exact hend

theorem openTag_total {text : Bytes} {fuel : Nat} (hfuel : text.length ≤ fuel) {s : XmlState}
    (h : XmlInv text s) (hi : s.i < text.length) :
    exists s', openTag text fuel s = some s' ∧ XmlInv text s' ∧ s.i < s'.i := by
  have hname := le_skip text (fun c => !isNameEnd c) (s.i + 1)
  have hinside := skip_le (fun c => !isNameEnd c) hi
  unfold openTag
  simp only
  generalize skip text (fun c => !isNameEnd c) (s.i + 1) = j at hname hinside
  generalize s.stack ++ [(text.drop (s.i + 1)).take (j - s.i - 1)] = stack
  have hstart : Laid text.length j (s.spans ++ [⟨s.i, j, path stack⟩]) :=
    h.push hi le_rfl (Nat.le_of_lt hname) le_rfl hinside (Or.inl hname)
  obtain ⟨t, hrun, ht⟩ := @tag_total text (path stack) ⟨j, false, _⟩ hstart fuel hfuel
  rw [hrun, Option.map_some]
  exact ⟨_, rfl, ht.laid, hname.trans ht.after⟩

theorem xmlBody_turns {text : Bytes} {fuel : Nat} (hfuel : text.length ≤ fuel) {s : XmlState}
    (h : XmlInv text s) (hi : s.i < text.length) :
    Turns (XmlInv text) (XmlInv text) (xmlLeft text) s (xmlBody text fuel s) := by
  obtain ⟨c, hc⟩ := exists_byte hi
  have hpast : forall stop stack, ascii stop ≠ [] ->
      Turns (XmlInv text) (XmlInv text) (xmlLeft text) s
        (some (.again { s with i := skipPast text s.i stop, stack := stack })) := by
    intro stop stack hne
    obtain ⟨hlt, hle⟩ := skipPast_bounds hne hi
    exact XmlInv.again (h.forward hlt.le hle) hlt
  unfold xmlBody
  rw [hc]
  simp only
  split_ifs with htext hcomment hmarkup hend
  · obtain ⟨hlt, hle⟩ := text_progress hc htext
    exact XmlInv.again (h.push hi le_rfl hlt.le le_rfl hle (Or.inl hlt)) hlt
  · exact hpast "-->" s.stack (by decide)
  · exact hpast ">" s.stack (by decide)
  · exact hpast ">" s.stack.dropLast (by decide)
  · obtain ⟨s', htag, hs', hlt⟩ := openTag_total hfuel h hi
    rw [htag]
    exact XmlInv.again hs' hlt

theorem openTag_mono {text : Bytes} {fuel fuel' : Nat} (hfuel : fuel ≤ fuel') {s s' : XmlState}
    (h : openTag text fuel s = some s') : openTag text fuel' s = some s' := by
  unfold openTag at h ⊢
  obtain ⟨t, ht, hs'⟩ := Option.map_eq_some_iff.mp h
  exact Option.map_eq_some_iff.mpr ⟨t, run_mono (fun _ _ hturn => hturn) hfuel ht, hs'⟩

theorem xmlBody_mono {text : Bytes} {fuel fuel' : Nat} (hfuel : fuel ≤ fuel') (s : XmlState)
    (turn : Turn XmlState) (h : xmlBody text fuel s = some turn) :
    xmlBody text fuel' s = some turn := by
  unfold xmlBody at h ⊢
  cases hc : text[s.i]? with
  | none =>
      rw [hc] at h
      cases h
  | some c =>
      rw [hc] at h
      simp only at h ⊢
      split_ifs at h ⊢
      · exact h
      · exact h
      · exact h
      · exact h
      · obtain ⟨s', htag, hturn⟩ := Option.map_eq_some_iff.mp h
        exact Option.map_eq_some_iff.mpr ⟨s', openTag_mono hfuel htag, hturn⟩

/-- The scanner of XML texts ends on all bytes. -/
theorem runXml_total (text : Bytes) :
    Spread text.length (xmlSpans text) ∧
      forall fuel, text.length ≤ fuel -> runXml text fuel = some (xmlSpans text) := by
  have htotal : forall fuel, text.length ≤ fuel ->
      exists s, run (fun s => decide (s.i < text.length)) (xmlBody text fuel) fuel
        ⟨0, [], []⟩ = some s ∧ XmlInv text s := by
    intro fuel hfuel
    apply @run_total XmlState _ _ (XmlInv text) _ (xmlLeft text)
    · intro s hs _
      exact hs
    · intro s hs hguard
      exact xmlBody_turns hfuel hs (of_decide_eq_true hguard)
    · exact Laid.nil _
    · exact hfuel
  obtain ⟨s, hrun, hs⟩ := htotal text.length le_rfl
  have hspans : xmlSpans text = s.spans := by
    unfold xmlSpans runXml
    rw [hrun]
    rfl
  constructor
  · rw [hspans]
    exact hs.spread
  · intro fuel hfuel
    have hmore : run (fun s => decide (s.i < text.length)) (xmlBody text fuel) fuel
        ⟨0, [], []⟩ = some s := by
      exact run_mono (xmlBody_mono hfuel) hfuel hrun
    unfold runXml
    rw [hmore, hspans, Option.map_some]

/-!
## The search in the spans
-/

/-- What the locator of an offset must be: that of the span that contains it, or else that of
the last span before it, or else none. -/
structure Finds (spans : List Span) (offset : Nat) (locator : Bytes) : Prop where
  inside : forall s, s ∈ spans -> s.begin ≤ offset -> offset < s.stop -> locator = s.locator
  last : forall s, s ∈ spans -> s.begin ≤ offset ->
    (forall t, t ∈ spans -> t.begin ≤ offset -> t.begin ≤ s.begin) -> locator = s.locator
  none : (forall s, s ∈ spans -> offset < s.begin) -> locator = []

/-- Spans in order are cut where they begin after an offset. -/
theorem exists_cut {spans : List Span} (h : spans.Pairwise fun a b => a.begin < b.begin)
    (offset : Nat) :
    exists before later, spans = before ++ later ∧
      (forall s, s ∈ before -> s.begin ≤ offset) ∧ forall s, s ∈ later -> offset < s.begin := by
  induction spans with
  | nil =>
      exists [], []
      exact ⟨rfl, fun s hs => (List.not_mem_nil hs).elim, fun s hs => (List.not_mem_nil hs).elim⟩
  | cons s spans ih =>
      rw [List.pairwise_cons] at h
      cases Nat.lt_or_ge offset s.begin with
      | inl hlt =>
          exists [], s :: spans
          refine ⟨rfl, fun t ht => (List.not_mem_nil ht).elim, ?_⟩
          rw [List.forall_mem_cons]
          exact ⟨hlt, fun t ht => hlt.trans (h.1 t ht)⟩
      | inr hge =>
          obtain ⟨before, later, hspans, hbefore, hlater⟩ := ih h.2
          exists s :: before, later
          rw [hspans, List.forall_mem_cons]
          exact ⟨rfl, ⟨hge, hbefore⟩, hlater⟩

theorem at_of_cut {xmlSpans : Bytes -> List Span} {l : Locator} {offset : Nat}
    {before later : List Span} (hspans : l.build xmlSpans = before ++ later)
    (hbefore : forall s, s ∈ before -> s.begin ≤ offset)
    (hlater : forall s, s ∈ later -> offset < s.begin) :
    l.at xmlSpans offset = (before.getLast?.map Span.locator).getD [] := by
  have hfound : Sorting.upperBound (fun s => decide (offset < s.begin)) (l.build xmlSpans) =
      before.length := by
    apply Sorting.upperBound_append _ _ before later hspans
    · intro s hs
      exact decide_eq_false (Nat.not_lt.mpr (hbefore s hs))
    · intro s hs
      exact decide_eq_true (hlater s hs)
  unfold Locator.at
  simp only [hfound]
  rw [hspans]
  induction before using List.reverseRecOn with
  | nil => rfl
  | append_singleton before s _ =>
      rw [List.length_append, List.length_singleton, List.getLast?_concat]
      simp only
      rw [List.append_assoc, List.getElem?_append_right le_rfl, Nat.sub_self]
      rfl

theorem finds_at {xmlSpans : Bytes -> List Span} {l : Locator} {size : Nat}
    (h : Spread size (l.build xmlSpans)) (offset : Nat) :
    Finds (l.build xmlSpans) offset (l.at xmlSpans offset) := by
  obtain ⟨before, later, hspans, hbefore, hlater⟩ := exists_cut h.increasing offset
  have hat := at_of_cut hspans hbefore hlater
  have hlast : forall s, s ∈ l.build xmlSpans -> s.begin ≤ offset ->
      (forall t, t ∈ l.build xmlSpans -> t.begin ≤ offset -> t.begin ≤ s.begin) ->
      l.at xmlSpans offset = s.locator := by
    intro s hs hbegin hmax
    have hsbefore : s ∈ before := by
      rw [hspans, List.mem_append] at hs
      exact hs.resolve_right fun hs => (hlater s hs).not_ge hbegin
    obtain ⟨front, back, rfl⟩ := List.append_of_mem hsbefore
    have hback : back = [] := by
      apply List.eq_nil_iff_forall_not_mem.mpr
      intro t ht
      have hmem : t ∈ front ++ s :: back := List.mem_append_right _ (List.mem_cons_of_mem _ ht)
      have hmore := h.increasing
      rw [hspans, List.pairwise_append, List.pairwise_append, List.pairwise_cons] at hmore
      have hless := hmore.1.2.1.1 t ht
      have hle := hmax t (by rw [hspans]; exact List.mem_append_left _ hmem) (hbefore t hmem)
      omega
    rw [hat, hback, List.getLast?_concat]
    rfl
  constructor
  · intro s hs hbegin hstop
    apply hlast s hs hbegin
    intro t ht htbegin
    obtain ⟨front, back, hsplit⟩ := List.append_of_mem hs
    have hless := h.increasing
    have hapart := h.apart
    rw [hsplit, List.pairwise_append] at hless hapart
    rw [hsplit, List.mem_append, List.mem_cons] at ht
    rcases ht with ht | ht | ht
    · exact (hless.2.2 t ht s List.mem_cons_self).le
    · rw [ht]
    · have hafter := (List.pairwise_cons.mp hapart.2.1).1 t ht
      omega
  · exact hlast
  · intro hnone
    have hnil : before = [] := by
      apply List.eq_nil_iff_forall_not_mem.mpr
      intro s hs
      have hlt := hnone s (by rw [hspans]; exact List.mem_append_left _ hs)
      exact hlt.not_ge (hbefore s hs)
    rw [hat, hnil]
    rfl

/-- The scanners end on all bytes with spans in order, so every offset is looked up rightly. -/
theorem scanners_total (text : Bytes) :
    (forall fuel, text.length ≤ fuel ->
      runJson text fuel = some (jsonSpans text) ∧ runXml text fuel = some (xmlSpans text)) ∧
      Spread text.length (jsonSpans text) ∧ Spread text.length (xmlSpans text) ∧
      forall path offset, Finds (Locator.build xmlSpans ⟨path, text⟩) offset
        (Locator.at xmlSpans ⟨path, text⟩ offset) := by
  obtain ⟨hjson, hrunJson⟩ := runJson_total text
  obtain ⟨hxml, hrunXml⟩ := runXml_total text
  have hbuild : forall path, Spread text.length (Locator.build xmlSpans ⟨path, text⟩) := by
    intro path
    unfold Locator.build
    split_ifs
    · exact hjson
    · exact hxml
    · exact (Laid.nil text.length).spread
  exact ⟨fun fuel hfuel => ⟨hrunJson fuel hfuel, hrunXml fuel hfuel⟩, hjson, hxml,
    fun path offset => finds_at (hbuild path) offset⟩

/-- A tag and an attribute value that do not end. -/
theorem scanners_total_unterminated :
    runXml (ascii "<a ='") 5 = some (xmlSpans (ascii "<a ='")) ∧
      xmlSpans (ascii "<a ='") = [⟨0, 2, ascii "/a"⟩, ⟨5, 5, ascii "/a/@"⟩] :=
  ⟨((scanners_total (ascii "<a ='")).1 5 (by decide)).2, by decide⟩

end Spans
end Capture
end Ostia

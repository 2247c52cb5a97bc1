import Mathlib.Data.List.Basic

/-!
# A subset of XML

Elements with attributes and elements inside, and no character data but blanks.  The reader is
a machine that takes one byte at a time and keeps the elements that are open on a stack; it
refuses a name that is no name, a repeated attribute, an end tag of another element, and a
reference it does not know.  The writer indents and escapes, and what it writes is read back.
-/

namespace Ostia
namespace Foundation
namespace Xml

abbrev Text := List UInt8

def text (s : String) : Text := s.toList.map Char.toUInt8

inductive Element where
  | mk (name : Text) (attributes : List (Text × Text)) (children : List Element)

/-!
## Characters
-/

def isBlank (c : UInt8) : Bool := (text " \t\n\r").contains c

def isNameStart (c : UInt8) : Bool :=
  ('a'.toUInt8 ≤ c && c ≤ 'z'.toUInt8) || ('A'.toUInt8 ≤ c && c ≤ 'Z'.toUInt8) ||
    (text "_:").contains c

def isNameByte (c : UInt8) : Bool :=
  isNameStart c || ('0'.toUInt8 ≤ c && c ≤ '9'.toUInt8) || (text "-.").contains c

def isName : Text -> Bool
  | [] => false
  | c :: rest => isNameStart c && rest.all isNameByte

/-- The bytes below a blank that a document may hold, if only as references. -/
def isCharacter (c : UInt8) : Bool := 0x20 ≤ c || (text "\t\n\r").contains c

/-- The decimal number of a character reference. -/
def number (digits : Text) : Option Nat :=
  if digits ≠ [] ∧ digits.all fun c => '0'.toUInt8 ≤ c && c ≤ '9'.toUInt8 then
    some (digits.foldl (fun v c => 10 * v + (c.toNat - 48)) 0)
  else none

/-- The byte of a reference, between the ampersand and the semicolon. -/
def referred (name : Text) : Option UInt8 :=
  if name = text "amp" then some '&'.toUInt8
  else if name = text "lt" then some '<'.toUInt8
  else if name = text "gt" then some '>'.toUInt8
  else if name = text "quot" then some '"'.toUInt8
  else if name = text "apos" then some 0x27
  else if name.head? = some '#'.toUInt8 then
    match number name.tail with
    | some n => if n < 128 ∧ isCharacter (UInt8.ofNat n) then some (UInt8.ofNat n) else none
    | none => none
  else none

/-!
## The reader
-/

/-- A start tag, as far as it is read. -/
structure Tag where
  name : Text
  attributes : List (Text × Text)

/-- Where in a document the reader is. -/
inductive Mode where
  | content
  | markup
  | startName (name : Text)
  | endName (name : Text)
  | between (tag : Tag)
  | attributeName (tag : Tag) (name : Text)
  | equals (tag : Tag) (name : Text)
  | value (tag : Tag) (name value : Text)
  | reference (tag : Tag) (name value reference : Text)
  | valueEnd (tag : Tag)
  | slash (tag : Tag)

/-- An element whose end tag is still to come. -/
structure Open where
  tag : Tag
  children : List Element

/-- The open elements, the innermost first, and the elements outside all of them. -/
structure Reader where
  mode : Mode
  stack : List Open
  top : List Element

/-- A finished element goes into the innermost open one. -/
def Reader.add (r : Reader) (e : Element) : Reader :=
  match r.stack with
  | [] => { r with mode := .content, top := r.top ++ [e] }
  | o :: rest =>
      { r with mode := .content, stack := { o with children := o.children ++ [e] } :: rest }

def Reader.into (r : Reader) (mode : Mode) : Option Reader := some { r with mode := mode }

def Reader.opened (r : Reader) (tag : Tag) : Option Reader :=
  some { r with mode := .content, stack := ⟨tag, []⟩ :: r.stack }

def Reader.closed (r : Reader) (name : Text) : Option Reader :=
  match r.stack with
  | [] => none
  | o :: rest =>
      if o.tag.name = name then
        some ({ r with stack := rest }.add (.mk name o.tag.attributes o.children))
      else none

def Tag.has (tag : Tag) (name : Text) : Bool := (tag.attributes.map Prod.fst).contains name

def Tag.with (tag : Tag) (name value : Text) : Tag :=
  { tag with attributes := tag.attributes ++ [(name, value)] }

def stepContent (r : Reader) (c : UInt8) : Option Reader :=
  if isBlank c then some r else if c = '<'.toUInt8 then r.into .markup else none

def stepMarkup (r : Reader) (c : UInt8) : Option Reader :=
  if c = '/'.toUInt8 then r.into (.endName [])
  else if isNameStart c then r.into (.startName [c]) else none

/-- After a tag's name or one of its values. -/
def stepTag (r : Reader) (tag : Tag) (c : UInt8) : Option Reader :=
  if isBlank c then r.into (.between tag)
  else if c = '>'.toUInt8 then r.opened tag
  else if c = '/'.toUInt8 then r.into (.slash tag) else none

def stepStartName (r : Reader) (name : Text) (c : UInt8) : Option Reader :=
  if isNameByte c then r.into (.startName (name ++ [c])) else stepTag r ⟨name, []⟩ c

def stepEndName (r : Reader) (name : Text) (c : UInt8) : Option Reader :=
  if isNameByte c then r.into (.endName (name ++ [c]))
  else if c = '>'.toUInt8 then r.closed name else none

def stepBetween (r : Reader) (tag : Tag) (c : UInt8) : Option Reader :=
  if isNameStart c then r.into (.attributeName tag [c]) else stepTag r tag c

def stepAttributeName (r : Reader) (tag : Tag) (name : Text) (c : UInt8) : Option Reader :=
  if isNameByte c then r.into (.attributeName tag (name ++ [c]))
  else if c = '='.toUInt8 ∧ tag.has name = false then r.into (.equals tag name) else none

/-- A blank in a value is read as a space. -/
def stepValue (r : Reader) (tag : Tag) (name value : Text) (c : UInt8) : Option Reader :=
  if c = '"'.toUInt8 then r.into (.valueEnd (tag.with name value))
  else if c = '&'.toUInt8 then r.into (.reference tag name value [])
  else if c = '<'.toUInt8 then none
  else if isBlank c then r.into (.value tag name (value ++ [' '.toUInt8]))
  else if isCharacter c then r.into (.value tag name (value ++ [c])) else none

def stepReference (r : Reader) (tag : Tag) (name value reference : Text) (c : UInt8) :
    Option Reader :=
  if c = ';'.toUInt8 then
    match referred reference with
    | some b => r.into (.value tag name (value ++ [b]))
    | none => none
  else r.into (.reference tag name value (reference ++ [c]))

def step (r : Reader) (c : UInt8) : Option Reader :=
  match r.mode with
  | .content => stepContent r c
  | .markup => stepMarkup r c
  | .startName name => stepStartName r name c
  | .endName name => stepEndName r name c
  | .between tag => stepBetween r tag c
  | .attributeName tag name => stepAttributeName r tag name c
  | .equals tag name => if c = '"'.toUInt8 then r.into (.value tag name []) else none
  | .value tag name value => stepValue r tag name value c
  | .reference tag name value reference => stepReference r tag name value reference c
  | .valueEnd tag => stepTag r tag c
  | .slash tag =>
      if c = '>'.toUInt8 then some (r.add (.mk tag.name tag.attributes [])) else none

def run : Reader -> Text -> Option Reader
  | r, [] => some r
  | r, c :: rest => (step r c).bind fun r' => run r' rest

/-- The one element of a text. -/
def read (t : Text) : Option Element :=
  match run ⟨.content, [], []⟩ t with
  | some ⟨.content, [], [e]⟩ => some e
  | _ => none

/-!
## The writer
-/

def escaped (c : UInt8) : Text :=
  if c = '&'.toUInt8 then text "&amp;"
  else if c = '<'.toUInt8 then text "&lt;"
  else if c = '>'.toUInt8 then text "&gt;"
  else if c = '"'.toUInt8 then text "&quot;"
  else if c = '\t'.toUInt8 then text "&#9;"
  else if c = '\n'.toUInt8 then text "&#10;"
  else if c = '\r'.toUInt8 then text "&#13;"
  else if 0x20 ≤ c then [c] else []

def escape (value : Text) : Text := value.flatMap escaped

def spaces (depth : Nat) : Text := List.replicate (depth * 2) ' '.toUInt8

def attributeText (a : Text × Text) : Text :=
  text " " ++ a.1 ++ text "=\"" ++ escape a.2 ++ text "\""

/-!
## What a document holds of a value
-/

/-- The bytes of a value that a document can hold. -/
def visible (value : Text) : Text := value.filter isCharacter

/-- The attributes as they are read. -/
def shown (attributes : List (Text × Text)) : List (Text × Text) :=
  attributes.map fun a => (a.1, visible a.2)

/-!
## Runs of the reader
-/

theorem run_append {r r' : Reader} {a : Text} (b : Text) (h : run r a = some r') :
    run r (a ++ b) = run r' b := by
  induction a generalizing r with
  | nil =>
      cases h
      rfl
  | cons c rest ih =>
      rw [run] at h
      rw [List.cons_append, run]
      cases hstep : step r c with
      | none =>
          rw [hstep] at h
          cases h
      | some next =>
          rw [hstep] at h
          exact ih h

theorem run_cons {r r' : Reader} {c : UInt8} (rest : Text) (h : step r c = some r') :
    run r (c :: rest) = run r' rest := by
  rw [run, h]
  rfl

variable {stack : List Open} {top : List Element} {tag : Tag} {name value : Text}

theorem run_spaces (depth : Nat) :
    run ⟨.content, stack, top⟩ (spaces depth) = some ⟨.content, stack, top⟩ := by
  unfold spaces
  induction depth * 2 with
  | zero => rfl
  | succ n ih =>
      rw [List.replicate_succ, run_cons _ (show step _ _ = some ⟨.content, stack, top⟩ from rfl)]
      exact ih

/-- A machine that collects the bytes of a name goes through the whole name. -/
theorem run_collected {mode : Text -> Mode}
    (hmode : forall n c, isNameByte c = true ->
      step ⟨mode n, stack, top⟩ c = some ⟨mode (n ++ [c]), stack, top⟩)
    {rest : Text} (hrest : rest.all isNameByte = true) (n : Text) :
    run ⟨mode n, stack, top⟩ rest = some ⟨mode (n ++ rest), stack, top⟩ := by
  induction rest generalizing n with
  | nil =>
      rw [List.append_nil]
      rfl
  | cons c rest ih =>
      rw [List.all_cons, Bool.and_eq_true] at hrest
      rw [run_cons _ (hmode n c hrest.1), ih hrest.2, List.append_assoc]
      rfl

theorem step_startName (n : Text) (c : UInt8) (h : isNameByte c = true) :
    step ⟨.startName n, stack, top⟩ c = some ⟨.startName (n ++ [c]), stack, top⟩ := by
  show stepStartName _ n c = _
  unfold stepStartName
  rw [if_pos h]
  rfl

theorem step_endName (n : Text) (c : UInt8) (h : isNameByte c = true) :
    step ⟨.endName n, stack, top⟩ c = some ⟨.endName (n ++ [c]), stack, top⟩ := by
  show stepEndName _ n c = _
  unfold stepEndName
  rw [if_pos h]
  rfl

theorem step_attributeName (n : Text) (c : UInt8) (h : isNameByte c = true) :
    step ⟨.attributeName tag n, stack, top⟩ c =
      some ⟨.attributeName tag (n ++ [c]), stack, top⟩ := by
  show stepAttributeName _ tag n c = _
  unfold stepAttributeName
  rw [if_pos h]
  rfl

theorem exists_of_isName (h : isName name = true) :
    exists c rest, name = c :: rest ∧ isNameStart c = true ∧ rest.all isNameByte = true := by
  cases name with
  | nil => cases h
  | cons c rest =>
      unfold isName at h
      rw [Bool.and_eq_true] at h
      exact ⟨c, rest, rfl, h.1, h.2⟩

theorem isNameByte_of_isNameStart {c : UInt8} (h : isNameStart c = true) :
    isNameByte c = true := by
  unfold isNameByte
  rw [h]
  rfl

theorem all_of_isName (h : isName name = true) : name.all isNameByte = true := by
  obtain ⟨c, rest, rfl, hc, hrest⟩ := exists_of_isName h
  rw [List.all_cons, isNameByte_of_isNameStart hc, hrest]
  rfl

/-- No byte of a name starts an end tag. -/
theorem ne_slash_of_isNameStart {c : UInt8} (h : isNameStart c = true) : c ≠ '/'.toUInt8 := by
  intro hc
  rw [hc] at h
  cases h

theorem run_startTag (h : isName name = true) :
    run ⟨.content, stack, top⟩ (text "<" ++ name) = some ⟨.startName name, stack, top⟩ := by
  obtain ⟨c, rest, rfl, hc, hrest⟩ := exists_of_isName h
  have hmarkup : step ⟨.markup, stack, top⟩ c = some ⟨.startName [c], stack, top⟩ := by
    show stepMarkup _ c = _
    unfold stepMarkup
    rw [if_neg (ne_slash_of_isNameStart hc), if_pos hc]
    rfl
  rw [run_append _ (show run _ (text "<") = some ⟨.markup, stack, top⟩ from rfl),
    run_cons _ hmarkup]
  exact run_collected step_startName hrest [c]

/-!
## Values
-/

theorem run_reference (reference : Text) (b : UInt8) (v : Text)
    (hsemicolon : ';'.toUInt8 ∉ reference) (h : referred reference = some b) :
    run ⟨.value tag name v, stack, top⟩ (text "&" ++ reference ++ text ";") =
      some ⟨.value tag name (v ++ [b]), stack, top⟩ := by
  have hrun : forall done rest : Text, ';'.toUInt8 ∉ rest ->
      run ⟨.reference tag name v done, stack, top⟩ rest =
        some ⟨.reference tag name v (done ++ rest), stack, top⟩ := by
    intro done rest hrest
    induction rest generalizing done with
    | nil =>
        rw [List.append_nil]
        rfl
    | cons c rest ih =>
        rw [List.mem_cons, not_or] at hrest
        have hstep : step ⟨.reference tag name v done, stack, top⟩ c =
            some ⟨.reference tag name v (done ++ [c]), stack, top⟩ := by
          show stepReference _ tag name v done c = _
          unfold stepReference
          rw [if_neg (Ne.symm hrest.1)]
          rfl
        rw [run_cons _ hstep, ih _ hrest.2, List.append_assoc]
        rfl
  have hend : step ⟨.reference tag name v reference, stack, top⟩ ';'.toUInt8 =
      some ⟨.value tag name (v ++ [b]), stack, top⟩ := by
    show stepReference _ tag name v reference _ = _
    unfold stepReference
    rw [if_pos rfl, h]
    rfl
  rw [List.append_assoc,
    run_append _ (show run _ (text "&") = some ⟨.reference tag name v [], stack, top⟩ from rfl),
    run_append _ (hrun [] reference hsemicolon)]
  exact run_cons [] hend

theorem run_escaped (c : UInt8) (v : Text) :
    run ⟨.value tag name v, stack, top⟩ (escaped c) =
      some ⟨.value tag name (v ++ visible [c]), stack, top⟩ := by
  unfold escaped
  split_ifs with hamp hlt hgt hquot htab hline hreturn hplain
  · rw [hamp]
    exact run_reference (text "amp") '&'.toUInt8 v (by decide) (by decide)
  · rw [hlt]
    exact run_reference (text "lt") '<'.toUInt8 v (by decide) (by decide)
  · rw [hgt]
    exact run_reference (text "gt") '>'.toUInt8 v (by decide) (by decide)
  · rw [hquot]
    exact run_reference (text "quot") '"'.toUInt8 v (by decide) (by decide)
  · rw [htab]
    exact run_reference (text "#9") '\t'.toUInt8 v (by decide) (by decide)
  · rw [hline]
    exact run_reference (text "#10") '\n'.toUInt8 v (by decide) (by decide)
  · rw [hreturn]
    exact run_reference (text "#13") '\r'.toUInt8 v (by decide) (by decide)
  · have hcharacter : isCharacter c = true := by
      unfold isCharacter
      rw [decide_eq_true hplain]
      rfl
    have hvisible : visible [c] = [c] := by
      unfold visible
      rw [List.filter_cons_of_pos hcharacter]
      rfl
    have hstep : step ⟨.value tag name v, stack, top⟩ c =
        some ⟨.value tag name (v ++ [c]), stack, top⟩ := by
      show stepValue _ tag name v c = _
      unfold stepValue
      rw [if_neg hquot, if_neg hamp, if_neg hlt]
      split_ifs with hblank
      · have hspace : c = ' '.toUInt8 := by
          unfold isBlank at hblank
          simpa [text, htab, hline, hreturn] using hblank
        rw [hspace]
        rfl
      · rfl
    rw [hvisible]
    exact run_cons [] hstep
  · have hcharacter : isCharacter c = false := by
      unfold isCharacter
      simp [text, hplain, htab, hline, hreturn]
    have hvisible : visible [c] = [] := by
      unfold visible
      rw [List.filter_cons_of_neg (ne_true_of_eq_false hcharacter)]
      rfl
    rw [hvisible, List.append_nil]
    rfl

theorem run_escape (v : Text) :
    run ⟨.value tag name v, stack, top⟩ (escape value) =
      some ⟨.value tag name (v ++ visible value), stack, top⟩ := by
  unfold escape
  induction value generalizing v with
  | nil =>
      rw [show visible [] = [] from rfl, List.append_nil]
      rfl
  | cons c rest ih =>
      have hsplit : visible (c :: rest) = visible [c] ++ visible rest :=
        List.filter_append [c] rest
      rw [List.flatMap_cons, run_append _ (run_escaped c v), ih, List.append_assoc, hsplit]

/-!
## Attributes
-/

/-- The reader stands in a start tag, where a blank, a slash or the end of it may follow. -/
def AtTag (mode : Mode) (tag : Tag) : Prop :=
  forall stack top c, isNameByte c = false ->
    step ⟨mode, stack, top⟩ c = stepTag ⟨mode, stack, top⟩ tag c

theorem atTag_startName (name : Text) : AtTag (.startName name) ⟨name, []⟩ := by
  intro stack top c hc
  show stepStartName _ name c = _
  unfold stepStartName
  rw [if_neg (ne_true_of_eq_false hc)]

theorem atTag_valueEnd (tag : Tag) : AtTag (.valueEnd tag) tag := by
  intro stack top c _
  rfl

theorem has_eq_false (h : name ∉ tag.attributes.map Prod.fst) : tag.has name = false := by
  unfold Tag.has
  rw [<- Bool.not_eq_true, List.contains_iff_mem]
  exact h

theorem run_attribute {mode : Mode} (h : AtTag mode tag) (hname : isName name = true)
    (hnew : name ∉ tag.attributes.map Prod.fst) :
    run ⟨mode, stack, top⟩ (attributeText (name, value)) =
      some ⟨.valueEnd (tag.with name (visible value)), stack, top⟩ := by
  obtain ⟨c, rest, hcons, hc, hrest⟩ := exists_of_isName hname
  have hblank : run ⟨mode, stack, top⟩ (text " ") = some ⟨.between tag, stack, top⟩ :=
    run_cons [] ((h stack top _ rfl).trans rfl)
  have hfirst : step ⟨.between tag, stack, top⟩ c =
      some ⟨.attributeName tag [c], stack, top⟩ := by
    show stepBetween _ tag c = _
    unfold stepBetween
    rw [if_pos hc]
    rfl
  have hread : run ⟨.between tag, stack, top⟩ name =
      some ⟨.attributeName tag name, stack, top⟩ := by
    rw [hcons, run_cons _ hfirst]
    exact run_collected step_attributeName hrest [c]
  have hequals : step ⟨.attributeName tag name, stack, top⟩ '='.toUInt8 =
      some ⟨.equals tag name, stack, top⟩ := by
    show stepAttributeName _ tag name _ = _
    unfold stepAttributeName
    rw [if_neg (by decide), if_pos ⟨rfl, has_eq_false hnew⟩]
    rfl
  have hstart : run ⟨.attributeName tag name, stack, top⟩ (text "=\"") =
      some ⟨.value tag name [], stack, top⟩ := run_cons _ hequals
  show run _ (text " " ++ name ++ text "=\"" ++ escape value ++ text "\"") = _
  rw [List.append_assoc, List.append_assoc, List.append_assoc, run_append _ hblank,
    run_append _ hread, run_append _ hstart, run_append _ (run_escape [])]
  rfl

theorem run_attributes {mode : Mode} {attributes : List (Text × Text)} (h : AtTag mode tag)
    (hnames : forall a, a ∈ attributes -> isName a.1 = true)
    (hnodup : (tag.attributes.map Prod.fst ++ attributes.map Prod.fst).Nodup) :
    exists mode',
      AtTag mode'
        ⟨tag.name, tag.attributes ++ shown attributes⟩ ∧
      run ⟨mode, stack, top⟩ (attributes.flatMap attributeText) = some ⟨mode', stack, top⟩ := by
  induction attributes generalizing mode tag with
  | nil =>
      rw [show shown [] = [] from rfl, List.append_nil]
      exact ⟨mode, h, rfl⟩
  | cons a rest ih =>
      have hnew : a.1 ∉ tag.attributes.map Prod.fst := by
        intro hmem
        exact (List.nodup_append.mp hnodup).2.2 a.1 hmem a.1 List.mem_cons_self rfl
      have hrest : ((tag.with a.1 (visible a.2)).attributes.map Prod.fst ++
          rest.map Prod.fst).Nodup := by
        show ((tag.attributes ++ [(a.1, visible a.2)]).map Prod.fst ++ _).Nodup
        rw [List.map_append, List.append_assoc]
        exact hnodup
      have hrun : run ⟨mode, stack, top⟩ (attributeText a) = _ :=
        run_attribute h (hnames a List.mem_cons_self) hnew
      obtain ⟨mode', hat, hrun'⟩ := ih (atTag_valueEnd (tag.with a.1 (visible a.2)))
        (fun b hb => hnames b (List.mem_cons_of_mem a hb)) hrest
      refine ⟨mode', ?_, ?_⟩
      · show AtTag mode' ⟨tag.name, tag.attributes ++ (a.1, visible a.2) :: shown rest⟩
        rw [List.append_cons]
        exact hat
      · rw [List.flatMap_cons, run_append _ hrun, hrun']

/-!
## Elements
-/

theorem run_endTag {o : Open} (h : isName o.tag.name = true) :
    run ⟨.content, o :: stack, top⟩ (text "</" ++ o.tag.name ++ text ">\n") =
      some ((⟨.content, stack, top⟩ : Reader).add
        (.mk o.tag.name o.tag.attributes o.children)) := by
  have hclose : step ⟨.endName o.tag.name, o :: stack, top⟩ '>'.toUInt8 =
      some ((⟨.endName o.tag.name, stack, top⟩ : Reader).add
        (.mk o.tag.name o.tag.attributes o.children)) := by
    show stepEndName _ _ _ = _
    unfold stepEndName
    rw [if_neg (by decide), if_pos rfl]
    unfold Reader.closed
    simp only
    rw [if_pos trivial]
  rw [List.append_assoc,
    run_append _ (show run _ (text "</") = some ⟨.endName [], o :: stack, top⟩ from rfl),
    run_append _ (run_collected step_endName (all_of_isName h) []), List.nil_append]
  show run _ ('>'.toUInt8 :: text "\n") = _
  rw [run_cons _ hclose]
  cases stack with
  | nil => rfl
  | cons o' rest => rfl

/-- A text is read as some elements, wherever it stands inside an element. -/
def Reads (t : Text) (es : List Element) : Prop :=
  forall (o : Open) (stack : List Open) (top : List Element),
    run ⟨.content, o :: stack, top⟩ t =
      some ⟨.content, { o with children := o.children ++ es } :: stack, top⟩

theorem Reads.nil : Reads [] [] := by
  intro o stack top
  rw [List.append_nil]
  rfl

theorem Reads.append {t t' : Text} {es es' : List Element} (h : Reads t es)
    (h' : Reads t' es') : Reads (t ++ t') (es ++ es') := by
  intro o stack top
  rw [run_append _ (h o stack top), h', List.append_assoc]

/-- Nothing is read of an empty text. -/
theorem Reads.eq_nil {es : List Element} (h : Reads [] es) : es = [] := by
  have hrun := h ⟨⟨[], []⟩, []⟩ [] []
  rw [run, Option.some_inj, Reader.mk.injEq] at hrun
  have hopen := (List.cons.inj hrun.2.1).1
  rw [Open.mk.injEq] at hopen
  exact hopen.2.symm

theorem Reads.spaces (depth : Nat) : Reads (spaces depth) [] := by
  intro o stack top
  rw [List.append_nil]
  exact run_spaces depth

/-- The start tag of an element that may be written. -/
structure Proper (name : Text) (attributes : List (Text × Text)) : Prop where
  name : isName name = true
  names : forall a, a ∈ attributes -> isName a.1 = true
  nodup : (attributes.map Prod.fst).Nodup

variable {attributes : List (Text × Text)}

/-- A start tag, elements and the end tag are read as one element. -/
theorem run_around {inside : Text} {children : List Element} (h : Proper name attributes)
    (hinside : Reads inside children) :
    run ⟨.content, stack, top⟩ (text "<" ++ name ++ attributes.flatMap attributeText ++
        text ">\n" ++ inside ++ (text "</" ++ name ++ text ">\n")) =
      some ((⟨.content, stack, top⟩ : Reader).add (.mk name (shown attributes) children)) := by
  obtain ⟨mode, hat, hattributes⟩ := @run_attributes stack top ⟨name, []⟩ _ attributes
    (atTag_startName name) h.names h.nodup
  have hopened : run ⟨mode, stack, top⟩ (text ">\n") =
      some ⟨.content, ⟨⟨name, shown attributes⟩, []⟩ :: stack, top⟩ := by
    show run _ ('>'.toUInt8 :: text "\n") = _
    rw [run_cons _ ((hat stack top _ (by decide)).trans rfl)]
    rfl
  rw [List.append_assoc, List.append_assoc, List.append_assoc,
    run_append _ (run_startTag h.name), run_append _ hattributes, run_append _ hopened,
    run_append _ (hinside _ stack top)]
  exact run_endTag h.name

theorem run_empty (h : Proper name attributes) :
    run ⟨.content, stack, top⟩
        (text "<" ++ name ++ attributes.flatMap attributeText ++ text "/>\n") =
      some ((⟨.content, stack, top⟩ : Reader).add (.mk name (shown attributes) [])) := by
  obtain ⟨mode, hat, hattributes⟩ := @run_attributes stack top ⟨name, []⟩ _ attributes
    (atTag_startName name) h.names h.nodup
  rw [List.append_assoc, run_append _ (run_startTag h.name), run_append _ hattributes]
  show run _ ('/'.toUInt8 :: text ">\n") = _
  rw [run_cons _ ((hat stack top _ (by decide)).trans rfl)]
  cases stack with
  | nil => rfl
  | cons o rest => rfl

theorem Reads.around {inside : Text} {children : List Element} (h : Proper name attributes)
    (hinside : Reads inside children) :
    Reads (text "<" ++ name ++ attributes.flatMap attributeText ++ text ">\n" ++ inside ++
        (text "</" ++ name ++ text ">\n"))
      [.mk name (shown attributes) children] := by
  intro o stack top
  exact run_around h hinside

theorem Reads.empty (h : Proper name attributes) :
    Reads (text "<" ++ name ++ attributes.flatMap attributeText ++ text "/>\n")
      [.mk name (shown attributes) []] := by
  intro o stack top
  exact run_empty h

/-- A document that is one element is read as it. -/
theorem read_around {inside : Text} {children : List Element} (h : Proper name attributes)
    (hinside : Reads inside children) :
    read (text "<" ++ name ++ attributes.flatMap attributeText ++ text ">\n" ++ inside ++
        (text "</" ++ name ++ text ">\n")) =
      some (.mk name (shown attributes) children) := by
  unfold read
  rw [run_around h hinside]
  rfl

end Xml
end Foundation
end Ostia

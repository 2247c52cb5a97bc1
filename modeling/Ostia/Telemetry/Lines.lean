import Mathlib.Data.List.Infix
import Mathlib.Data.String.Basic
import Mathlib.Tactic.Tauto

/-!
# Comments of one line

A text that is pasted into a comment stays in it when each of its line ends is followed by a
comment.  The texts between are parts without a line end.
-/

namespace Ostia
namespace Telemetry

/-!
## Lines of the compiler

Whether a carriage return alone ends a line is the choice of the compiler.
-/

def ends (cr : Bool) (c : Char) : Bool := c == '\n' || (cr && c == '\r')

def linesOf (cr : Bool) (text : List Char) : List (List Char) := text.splitOnP (ends cr)

/-- The white space that may stand between a backslash and the end of its line. -/
def isBlank (cr : Bool) (c : Char) : Bool :=
  !ends cr c && [' ', '\t', '\x0b', '\x0c', '\r'].contains c

/-- A last line that ends in a backslash is joined with the line that follows it. -/
def spliced (cr : Bool) (text : List Char) : Bool :=
  (text.reverse.dropWhile (isBlank cr)).head? == some '\\'

/-- A comment of one line, or an empty line as the fixed lines have it. -/
def isQuiet (cr : Bool) (line : List Char) : Bool :=
  line.isEmpty || ("//".toList.isPrefixOf line && !spliced cr line)

/-!
## Texts that stay in a comment
-/

/-- What follows a line end is a comment or another line end. -/
def Continues (cr : Bool) (rest : List Char) : Prop :=
  "//".toList <+: rest ∨ exists c later, rest = c :: later ∧ ends cr c = true

/-- Inside a comment: each line end is followed by a comment. -/
def Contained (cr : Bool) (text : List Char) : Prop :=
  forall before c rest, text = before ++ c :: rest -> ends cr c = true ->
    spliced cr before = false ∧ Continues cr rest

/-- At the end of a comment: it may also end in a line end, but not in a backslash. -/
def Closing (cr : Bool) (text : List Char) : Prop :=
  spliced cr text = false ∧ forall before c rest, text = before ++ c :: rest ->
    ends cr c = true -> spliced cr before = false ∧ (rest = [] ∨ Continues cr rest)

/-!
## Parts of a comment
-/

/-- A part without a line end that is not blank and does not end in a backslash. -/
def isJoint (cr : Bool) (text : List Char) : Bool :=
  text.all (fun c => !ends cr c) && !(text.reverse.dropWhile (isBlank cr)).isEmpty &&
    !spliced cr text

theorem Joint.noEnd {cr : Bool} {text : List Char} (h : isJoint cr text = true) :
    forall c, c ∈ text -> ends cr c = false := by
  unfold isJoint at h
  simp only [Bool.and_eq_true, List.all_eq_true, Bool.not_eq_true'] at h
  exact h.1.1

theorem Joint.solid {cr : Bool} {text : List Char} (h : isJoint cr text = true) :
    text.reverse.dropWhile (isBlank cr) ≠ [] := by
  unfold isJoint at h
  simp only [Bool.and_eq_true, Bool.not_eq_true', List.isEmpty_eq_false_iff] at h
  exact h.1.2

theorem Joint.unspliced {cr : Bool} {text : List Char} (h : isJoint cr text = true) :
    spliced cr text = false := by
  unfold isJoint at h
  simp only [Bool.and_eq_true, Bool.not_eq_true'] at h
  exact h.2

theorem spliced_append {cr : Bool} (text : List Char) {rest : List Char}
    (h : rest.reverse.dropWhile (isBlank cr) ≠ []) :
    spliced cr (text ++ rest) = spliced cr rest := by
  unfold spliced
  rw [List.reverse_append, List.dropWhile_append, if_neg (by simpa using h),
    List.head?_append_of_ne_nil _ h]

theorem spliced_append_blank {cr : Bool} (text : List Char) {rest : List Char}
    (h : rest.reverse.dropWhile (isBlank cr) = []) :
    spliced cr (text ++ rest) = spliced cr text := by
  unfold spliced
  rw [List.reverse_append, List.dropWhile_append, h]
  rfl

/-- Only what follows a joint decides about a backslash. -/
theorem Joint.spliced {cr : Bool} {joint : List Char} (h : isJoint cr joint = true)
    (before rest : List Char) : spliced cr (before ++ (joint ++ rest)) = spliced cr rest := by
  rw [← List.append_assoc]
  by_cases hrest : rest.reverse.dropWhile (isBlank cr) = []
  · rw [spliced_append_blank _ hrest, spliced_append _ (Joint.solid h), Joint.unspliced h]
    unfold Telemetry.spliced
    rw [hrest]
    rfl
  · exact spliced_append _ hrest

/-- A line end of two joined texts stands in one of them. -/
theorem forall_split_append {P : List Char -> List Char -> Prop} {cr : Bool}
    (text later : List Char) :
    (forall before c rest, text ++ later = before ++ c :: rest -> ends cr c = true ->
        P before rest) <->
      (forall before c rest, text = before ++ c :: rest -> ends cr c = true ->
        P before (rest ++ later)) ∧
      forall before c rest, later = before ++ c :: rest -> ends cr c = true ->
        P (text ++ before) rest := by
  constructor
  · intro h
    constructor
    · intro before c rest htext hc
      exact h before c (rest ++ later) (by rw [htext]; simp) hc
    · intro before c rest hlater hc
      exact h (text ++ before) c rest (by rw [hlater]; simp) hc
  · intro h before c rest hsplit hc
    cases List.append_eq_append_iff.mp hsplit with
    | inl hin =>
        obtain ⟨middle, rfl, hlater⟩ := hin
        exact h.2 middle c rest hlater hc
    | inr hin =>
        obtain ⟨middle, htext, hmiddle⟩ := hin
        cases middle with
        | nil =>
            rw [List.append_nil] at htext
            have hfirst := h.2 [] c rest (by simpa using hmiddle.symm) hc
            rwa [List.append_nil, htext] at hfirst
        | cons d middle =>
            rw [List.cons_append, List.cons.injEq] at hmiddle
            rw [hmiddle.2]
            exact h.1 before c middle (by rw [htext, hmiddle.1]) hc

theorem no_split {cr : Bool} {text : List Char} (h : forall c, c ∈ text -> ends cr c = false)
    {P : List Char -> List Char -> Prop} :
    forall before c rest, text = before ++ c :: rest -> ends cr c = true -> P before rest := by
  intro before c rest htext hc
  have hmem : c ∈ text := by
    rw [htext]
    simp
  rw [h c hmem] at hc
  cases hc

theorem slash_not_end (cr : Bool) : ends cr '/' = false := by
  cases cr with
  | false => rfl
  | true => rfl

/-- A text before a joint is not continued by it. -/
theorem continues_joint {cr : Bool} {joint : List Char} (h : isJoint cr joint = true)
    (hstart : joint.head? ≠ some '/') (rest later : List Char) :
    Continues cr (rest ++ (joint ++ later)) <-> Continues cr rest := by
  cases joint with
  | nil => exact absurd rfl (Joint.solid h)
  | cons j joint =>
      have hj : ends cr j = false := Joint.noEnd h j List.mem_cons_self
      have hslash : j ≠ '/' := by
        intro hj
        exact hstart (congrArg some hj)
      unfold Continues
      cases rest with
      | nil => simp [hj, Ne.symm hslash]
      | cons c rest =>
          cases rest with
          | nil => simp [Ne.symm hslash]
          | cons d rest => simp

theorem Contained.iff_joint {cr : Bool} {joint : List Char} (h : isJoint cr joint = true)
    (hstart : joint.head? ≠ some '/') (text later : List Char) :
    Contained cr (text ++ (joint ++ later)) <-> Contained cr text ∧ Contained cr later := by
  unfold Contained
  rw [forall_split_append, forall_split_append]
  simp only [continues_joint h hstart, Joint.spliced h]
  constructor
  · intro hall
    exact ⟨hall.1, hall.2.2⟩
  · intro hall
    exact ⟨hall.1, no_split (Joint.noEnd h), hall.2⟩

theorem Closing.iff_joint {cr : Bool} {joint : List Char} (h : isJoint cr joint = true)
    (hstart : joint.head? ≠ some '/') (text later : List Char) :
    Closing cr (text ++ (joint ++ later)) <-> Contained cr text ∧ Closing cr later := by
  have hne : forall rest : List Char, rest ++ (joint ++ later) ≠ [] := by
    intro rest hnil
    rw [List.append_eq_nil_iff, List.append_eq_nil_iff] at hnil
    rw [hnil.2.1] at h
    exact Joint.solid h rfl
  unfold Closing Contained
  rw [forall_split_append, forall_split_append]
  simp only [continues_joint h hstart, hne, false_or, Joint.spliced h]
  constructor
  · intro hall
    exact ⟨hall.2.1, hall.1, hall.2.2.2⟩
  · intro hall
    exact ⟨hall.2.1, hall.1, no_split (Joint.noEnd h), hall.2.2⟩

theorem Contained.iff_first {cr : Bool} {joint : List Char} (h : isJoint cr joint = true)
    (later : List Char) : Contained cr (joint ++ later) <-> Contained cr later := by
  have hspliced : forall rest, spliced cr (joint ++ rest) = spliced cr rest :=
    Joint.spliced h []
  unfold Contained
  rw [forall_split_append]
  simp only [hspliced]
  constructor
  · intro hall
    exact hall.2
  · intro hall
    exact ⟨no_split (Joint.noEnd h), hall⟩

theorem Closing.iff_first {cr : Bool} {joint : List Char} (h : isJoint cr joint = true)
    (later : List Char) : Closing cr (joint ++ later) <-> Closing cr later := by
  have hspliced : forall rest, spliced cr (joint ++ rest) = spliced cr rest :=
    Joint.spliced h []
  unfold Closing
  rw [forall_split_append]
  simp only [hspliced]
  constructor
  · intro hall
    exact ⟨hall.1, hall.2.2⟩
  · intro hall
    exact ⟨hall.1, no_split (Joint.noEnd h), hall.2⟩

theorem Contained.nil (cr : Bool) : Contained cr [] := no_split (by simp)

theorem Closing.nil (cr : Bool) : Closing cr [] := ⟨rfl, no_split (by simp)⟩

/-- Texts with a joint between them. -/
theorem Contained.iff_intercalate {cr : Bool} {joint : List Char} (h : isJoint cr joint = true)
    (hstart : joint.head? ≠ some '/') (texts : List (List Char)) :
    Contained cr (joint.intercalate texts) <-> forall text, text ∈ texts -> Contained cr text := by
  induction texts with
  | nil => simp [Contained.nil]
  | cons text texts ih =>
      cases texts with
      | nil => simp
      | cons next texts =>
          rw [List.intercalate_cons_cons, List.append_assoc, Contained.iff_joint h hstart, ih]
          simp

/-!
## Lines that are comments
-/

theorem linesOf_noEnd {cr : Bool} {text : List Char}
    (h : forall c, c ∈ text -> ends cr c = false) : linesOf cr text = [text] :=
  List.splitOnP_eq_singleton h

theorem linesOf_append (cr : Bool) (text : List Char) {c : Char} (hc : ends cr c = true)
    (later : List Char) :
    linesOf cr (text ++ c :: later) = linesOf cr text ++ linesOf cr later :=
  List.splitOnP_append_cons text later hc

/-- The lines of texts that are joined by line feeds. -/
theorem linesOf_intercalate (cr : Bool) {texts : List (List Char)} (h : texts ≠ []) :
    linesOf cr ("\n".toList.intercalate texts) = texts.flatMap (linesOf cr) := by
  induction texts with
  | nil => exact absurd rfl h
  | cons text texts ih =>
      cases texts with
      | nil => simp
      | cons next texts =>
          have hend : ends cr '\n' = true := rfl
          rw [List.intercalate_cons_cons, List.append_assoc, List.flatMap_cons,
            ← ih (List.cons_ne_nil _ _)]
          exact linesOf_append cr text hend _

theorem continues_noEnd {cr : Bool} {text : List Char}
    (h : forall c, c ∈ text -> ends cr c = false) :
    Continues cr text <-> "//".toList <+: text := by
  unfold Continues
  constructor
  · intro hcontinues
    cases hcontinues with
    | inl hslashes => exact hslashes
    | inr hend =>
        obtain ⟨c, later, htext, hc⟩ := hend
        rw [h c (by rw [htext]; simp)] at hc
        cases hc
  · intro hslashes
    exact Or.inl hslashes

theorem closing_noEnd {cr : Bool} {text : List Char}
    (h : forall c, c ∈ text -> ends cr c = false) :
    Closing cr text <-> spliced cr text = false := by
  constructor
  · intro hclosing
    exact hclosing.1
  · intro hspliced
    exact ⟨hspliced, no_split h⟩

theorem quiet_iff {cr : Bool} {line : List Char}
    (h : forall c, c ∈ line -> ends cr c = false) :
    isQuiet cr line = true <-> (line = [] ∨ Continues cr line) ∧ Closing cr line := by
  rw [continues_noEnd h, closing_noEnd h]
  unfold isQuiet
  cases line with
  | nil => simp [spliced]
  | cons c line => simp

/-- A backslash before a line end is not one at the end of the text. -/
theorem spliced_append_end {cr : Bool} (text : List Char) {c : Char} (hc : ends cr c = true)
    (rest : List Char) : spliced cr (text ++ c :: rest) = spliced cr rest := by
  have hblank : isBlank cr c = false := by
    unfold isBlank
    rw [hc]
    rfl
  have hback : (c == '\\') = false := by
    rw [beq_eq_false_iff_ne]
    intro heq
    rw [heq] at hc
    cases cr with
    | false => cases hc
    | true => cases hc
  by_cases hrest : rest.reverse.dropWhile (isBlank cr) = []
  · unfold spliced
    rw [List.reverse_append, List.reverse_cons, List.append_assoc, List.dropWhile_append, hrest]
    simpa [List.dropWhile_cons, hblank] using hback
  · rw [List.append_cons, spliced_append _ hrest]

theorem forall_split_cons {P : List Char -> List Char -> Prop} {cr : Bool} {c : Char}
    (hc : ends cr c = true) (later : List Char) :
    (forall before d rest, c :: later = before ++ d :: rest -> ends cr d = true ->
        P before rest) <->
      P [] later ∧ forall before d rest, later = before ++ d :: rest -> ends cr d = true ->
        P (c :: before) rest := by
  have happend := @forall_split_append P cr [c] later
  rw [List.singleton_append] at happend
  rw [happend]
  constructor
  · intro h
    exact ⟨h.1 [] c [] rfl hc, h.2⟩
  · intro h
    constructor
    · intro before d rest hsplit _
      cases before with
      | nil =>
          rw [List.nil_append, List.cons.injEq] at hsplit
          rw [← hsplit.2]
          exact h.1
      | cons b before =>
          rw [List.cons_append, List.cons.injEq] at hsplit
          exact absurd hsplit.2.symm (by simp)
    · exact h.2

/-- A line and what follows its end. -/
theorem closing_append_end {cr : Bool} {line : List Char}
    (h : forall c, c ∈ line -> ends cr c = false) {c : Char} (hc : ends cr c = true)
    (rest : List Char) : Closing cr (line ++ c :: rest) <->
      Closing cr line ∧ (rest = [] ∨ Continues cr rest) ∧ Closing cr rest := by
  rw [closing_noEnd h]
  unfold Closing
  rw [forall_split_append, forall_split_cons hc, List.append_nil]
  simp only [spliced_append_end _ hc]
  constructor
  · intro hall
    exact ⟨hall.2.2.1.1, hall.2.2.1.2, hall.1, hall.2.2.2⟩
  · intro hall
    exact ⟨hall.2.2.1, no_split h, ⟨hall.1, hall.2.1⟩, hall.2.2.2⟩

theorem continues_append_end {cr : Bool} {line : List Char}
    (h : forall c, c ∈ line -> ends cr c = false) {c : Char} (hc : ends cr c = true)
    (rest : List Char) :
    Continues cr (line ++ c :: rest) <-> line = [] ∨ Continues cr line := by
  have hslash : '/' ≠ c := by
    intro heq
    rw [← heq, slash_not_end] at hc
    cases hc
  cases line with
  | nil => simp [Continues, hc]
  | cons d line =>
      have hd : ends cr d = false := h d List.mem_cons_self
      cases line with
      | nil => simp [Continues, hd, hslash]
      | cons e line => simp [Continues, hd]

theorem lines_quiet_from {cr : Bool} {line : List Char}
    (h : forall c, c ∈ line -> ends cr c = false) (text : List Char) :
    (forall l, l ∈ linesOf cr (line ++ text) -> isQuiet cr l = true) <->
      (line ++ text = [] ∨ Continues cr (line ++ text)) ∧ Closing cr (line ++ text) := by
  induction text generalizing line with
  | nil =>
      rw [List.append_nil, linesOf_noEnd h, ← quiet_iff h]
      simp
  | cons c rest ih =>
      cases hc : ends cr c with
      | false =>
          rw [List.append_cons]
          apply ih
          intro d hd
          rw [List.mem_append, List.mem_singleton] at hd
          cases hd with
          | inl hd => exact h d hd
          | inr hd => exact hd ▸ hc
      | true =>
          have hrest := @ih [] (by simp)
          rw [List.nil_append] at hrest
          have hline := quiet_iff h
          rw [linesOf_append cr line hc, linesOf_noEnd h, List.singleton_append,
            List.forall_mem_cons, hrest, hline, closing_append_end h hc,
            continues_append_end h hc]
          simp only [List.append_eq_nil_iff, reduceCtorEq, and_false, false_or]
          tauto

/-- The lines of a comment are comments exactly when its text closes. -/
theorem lines_quiet_iff {cr : Bool} {text : List Char} (h : "//".toList <+: text) :
    (forall l, l ∈ linesOf cr text -> isQuiet cr l = true) <-> Closing cr text := by
  have hfrom := @lines_quiet_from cr [] (by simp) text
  rw [List.nil_append] at hfrom
  rw [hfrom]
  constructor
  · intro hall
    exact hall.2
  · intro hclosing
    exact ⟨Or.inr (Or.inl h), hclosing⟩

/-!
## Lines of code
-/

/-- The number of lines that are no comments. -/
def codeLines (cr : Bool) (lines : List (List Char)) : Nat :=
  lines.countP fun line => !isQuiet cr line

theorem codeLines_append (cr : Bool) (xs ys : List (List Char)) :
    codeLines cr (xs ++ ys) = codeLines cr xs + codeLines cr ys := List.countP_append

theorem codeLines_eq_zero {cr : Bool} {lines : List (List Char)} :
    codeLines cr lines = 0 <-> forall line, line ∈ lines -> isQuiet cr line = true := by
  unfold codeLines
  rw [List.countP_eq_zero]
  simp

/-- A line that starts with anything but a slash is code. -/
theorem code_of_start {cr : Bool} {c : Char} (h : c ≠ '/') (line : List Char) :
    isQuiet cr (c :: line) = false := by
  unfold isQuiet
  simp [Ne.symm h]

theorem codeLines_pos {cr : Bool} {c : Char} (hc : ends cr c = false) (h : c ≠ '/')
    (text : List Char) : 1 ≤ codeLines cr (linesOf cr (c :: text)) := by
  have hne : text.splitOnP (ends cr) ≠ [] := List.splitOnP_ne_nil _ _
  unfold linesOf
  rw [List.splitOnP_cons_eq_if_modifyHead, hc]
  cases hlines : text.splitOnP (ends cr) with
  | nil => exact absurd hlines hne
  | cons line lines =>
      unfold codeLines
      simp only [Bool.false_eq_true, if_false, List.modifyHead_cons, List.countP_cons,
        code_of_start h, Bool.not_false, if_true]
      exact Nat.le_add_left 1 _

end Telemetry
end Ostia

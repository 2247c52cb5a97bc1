import Ostia.Capture.Decimal

/-!
# The differences of two texts

Two texts are compared line by line at equal positions.  The differing lines are printed in runs
until forty lines are reached, and the rest is counted.
-/

namespace Ostia
namespace Tool

open Capture (Bytes ascii toText)

/-!
## Lines
-/

def newline : UInt8 := '\n'.toUInt8

/-- The lines of a text; a newline at its end begins no further line. -/
def linesOf : Bytes -> List Bytes
  | [] => []
  | c :: rest =>
      if c = newline then [] :: linesOf rest
      else
        match linesOf rest with
        | [] => [[c]]
        | line :: lines => (c :: line) :: lines

/-- The text of printed lines. -/
def printed (lines : List Bytes) : Bytes := lines.flatMap fun line => line ++ [newline]

/-!
## The printed differences
-/

def kMaxDiffLines : Nat := 40

/-- The positions at which the lines differ, or only one text has a line. -/
def differing (e a : List Bytes) : List Nat :=
  (List.range (max e.length a.length)).filter fun i =>
    decide (e.length ≤ i) || decide (a.length ≤ i) || e[i]? != a[i]?

/-- Whether a differing line begins a run. -/
def runStart (previous : Option Nat) (i : Nat) : Bool := previous.all fun p => p + 1 != i

/-- The lines that are printed for one differing position. -/
def hunk (e a : List Bytes) (previous : Option Nat) (i : Nat) : List Bytes :=
  (if runStart previous i then [ascii "@@ line " ++ toText (i + 1) ++ ascii " @@"] else []) ++
    (e[i]?.toList.map fun line => ascii "-" ++ line) ++
    (a[i]?.toList.map fun line => ascii "+" ++ line)

def cost (e a : List Bytes) (previous : Option Nat) (i : Nat) : Nat :=
  (if runStart previous i then 1 else 0) + (if i < e.length then 1 else 0) +
    (if i < a.length then 1 else 0)

/-- The hunks that fit, after some lines that are already printed. -/
def hunks (e a : List Bytes) (previous : Option Nat) (count : Nat) : List Nat -> List Bytes × Nat
  | [] => ([], 0)
  | i :: rest =>
      if kMaxDiffLines - 1 < count + cost e a previous i then ([], 0)
      else
        let later := hunks e a (some i) (count + cost e a previous i) rest
        (hunk e a previous i ++ later.1, later.2 + 1)

def headerLine (mark name : Bytes) (lines : List Bytes) : Bytes :=
  mark ++ name ++ ascii " (" ++ toText lines.length ++ ascii " lines)"

def diffLines (e a : List Bytes) (minus plus : Bytes) : List Bytes :=
  let body := hunks e a none 2 (differing e a)
  [headerLine (ascii "--- ") minus e, headerLine (ascii "+++ ") plus a] ++ body.1 ++
    if body.2 < (differing e a).length then
      [ascii "... " ++ toText ((differing e a).length - body.2) ++ ascii " more differing lines"]
    else []

def printDiff (expected actual minus plus : Bytes) : Bytes :=
  printed (diffLines (linesOf expected) (linesOf actual) minus plus)

/-!
## Texts and lines
-/

theorem linesOf_append {line : Bytes} (h : newline ∉ line) (rest : Bytes) :
    linesOf (line ++ newline :: rest) = line :: linesOf rest := by
  induction line with
  | nil => rw [List.nil_append, linesOf, if_pos rfl]
  | cons c cs ih =>
      rw [List.mem_cons, not_or] at h
      rw [List.cons_append, linesOf, if_neg (Ne.symm h.1), ih h.2]

theorem linesOf_printed {lines : List Bytes} (h : forall line, line ∈ lines -> newline ∉ line) :
    linesOf (printed lines) = lines := by
  unfold printed
  induction lines with
  | nil => rfl
  | cons line lines ih =>
      rw [List.forall_mem_cons] at h
      rw [List.flatMap_cons, List.append_assoc, List.singleton_append, linesOf_append h.1, ih h.2]

theorem newline_not_mem {text line : Bytes} (h : line ∈ linesOf text) : newline ∉ line := by
  induction text generalizing line with
  | nil => cases h
  | cons c rest ih =>
      rw [linesOf] at h
      split_ifs at h with hc
      · rcases List.mem_cons.mp h with heq | hmem
        · rw [heq]
          exact List.not_mem_nil
        · exact ih hmem
      · cases hrest : linesOf rest with
        | nil =>
            rw [hrest] at h
            rw [List.mem_singleton.mp h]
            simpa using Ne.symm hc
        | cons first lines =>
            rw [hrest] at h
            rcases List.mem_cons.mp h with heq | hmem
            · rw [heq, List.mem_cons, not_or]
              exact ⟨Ne.symm hc, ih (hrest ▸ List.mem_cons_self)⟩
            · exact ih (hrest ▸ List.mem_cons_of_mem first hmem)

/-- A text whose last line is ended. -/
def ended (text : Bytes) : Bytes :=
  if text = [] ∨ text.getLast? = some newline then text else text ++ [newline]

theorem printed_linesOf (text : Bytes) : printed (linesOf text) = ended text := by
  induction text with
  | nil => rfl
  | cons c rest ih =>
      have hcons : ended (c :: rest) = if rest = [] then (if c = newline then [c] else [c, newline])
          else c :: ended rest := by
        unfold ended
        cases rest with
        | nil => simp
        | cons d ds => simp only [List.getLast?_cons_cons, reduceCtorEq, false_or, if_false,
            List.cons_append, apply_ite (List.cons c)]
      rw [linesOf, hcons]
      by_cases hc : c = newline
      · rw [if_pos hc, if_pos hc]
        show [] ++ [newline] ++ printed (linesOf rest) = _
        rw [ih, hc]
        cases rest with
        | nil => rfl
        | cons d ds => rfl
      · rw [if_neg hc, if_neg hc]
        cases hrest : linesOf rest with
        | nil =>
            rw [hrest] at ih
            have hnil : rest = [] := by
              cases rest with
              | nil => rfl
              | cons d ds =>
                  rw [linesOf] at hrest
                  split_ifs at hrest
                  split at hrest
                  · cases hrest
                  · cases hrest
            rw [hnil]
            rfl
        | cons line lines =>
            rw [hrest] at ih
            have hne : rest ≠ [] := by
              intro hnil
              rw [hnil] at hrest
              cases hrest
            rw [if_neg hne, <- ih]
            rfl

/-- Two texts have the same lines when they are equal up to the newline at the end. -/
theorem linesOf_eq_iff {s t : Bytes} : linesOf s = linesOf t <-> ended s = ended t := by
  rw [<- printed_linesOf, <- printed_linesOf]
  constructor
  · exact congrArg printed
  · intro h
    rw [<- @linesOf_printed (linesOf s) (fun _ hline => newline_not_mem hline), h,
      linesOf_printed (fun _ hline => newline_not_mem hline)]

/-!
## The differing positions
-/

section Differing

variable {e a : List Bytes} {i : Nat}

theorem mem_differing : i ∈ differing e a <-> e[i]? ≠ a[i]? := by
  unfold differing
  rw [List.mem_filter, List.mem_range]
  constructor
  · intro h heq
    by_cases hin : i < e.length
    · have hin' : i < a.length := by
        rw [List.getElem?_eq_getElem hin] at heq
        exact (List.getElem?_eq_some_iff.mp heq.symm).1
      simp [Nat.not_le.mpr hin, Nat.not_le.mpr hin', heq] at h
    · have hout : e[i]? = none := List.getElem?_eq_none (Nat.le_of_not_lt hin)
      rw [hout] at heq
      have hout' := List.getElem?_eq_none_iff.mp heq.symm
      omega
  · intro hne
    constructor
    · by_contra hout
      rw [List.getElem?_eq_none (by omega), List.getElem?_eq_none (by omega)] at hne
      exact hne rfl
    · simp [hne]

theorem differing_sorted (e a : List Bytes) : (differing e a).Pairwise (· < ·) :=
  List.Pairwise.filter _ List.pairwise_lt_range

theorem differing_eq_nil : differing e a = [] <-> e = a := by
  constructor
  · intro h
    apply List.ext_getElem?
    intro i
    by_contra hne
    have hmem := mem_differing.mpr hne
    rw [h] at hmem
    cases hmem
  · intro h
    rw [List.eq_nil_iff_forall_not_mem]
    intro i hi
    exact mem_differing.mp hi (congrArg (·[i]?) h)

end Differing

/-!
## The limit
-/

section Limit

variable (e a : List Bytes)

theorem length_hunk (previous : Option Nat) (i : Nat) :
    (hunk e a previous i).length = cost e a previous i := by
  have hside : forall (lines : List Bytes) (mark : Bytes),
      (lines[i]?.toList.map fun line => mark ++ line).length =
        if i < lines.length then 1 else 0 := by
    intro lines mark
    rw [List.length_map]
    split_ifs with hi
    · rw [List.getElem?_eq_getElem hi]
      rfl
    · rw [List.getElem?_eq_none (Nat.le_of_not_lt hi)]
      rfl
  unfold hunk cost
  rw [List.length_append, List.length_append, hside, hside]
  split_ifs
  all_goals rfl

theorem length_hunks (previous : Option Nat) (count : Nat) (positions : List Nat)
    (h : count ≤ kMaxDiffLines - 1) :
    count + (hunks e a previous count positions).1.length ≤ kMaxDiffLines - 1 := by
  induction positions generalizing previous count with
  | nil => exact h
  | cons i rest ih =>
      rw [hunks]
      split_ifs with hfull
      · exact h
      · have hrest := ih (some i) (count + cost e a previous i) (Nat.not_lt.mp hfull)
        rw [List.length_append, length_hunk]
        omega

/-- At most forty lines are printed. -/
theorem length_diffLines (minus plus : Bytes) :
    (diffLines e a minus plus).length ≤ kMaxDiffLines := by
  have hbody := length_hunks e a none 2 (differing e a) (by decide)
  have hlimit : kMaxDiffLines = 40 := rfl
  unfold diffLines
  rw [List.length_append, List.length_append]
  show 2 + _ + _ ≤ _
  split_ifs
  · show _ + 1 ≤ _
    omega
  · show _ + 0 ≤ _
    omega

end Limit

/-!
## What the printed lines determine
-/

theorem toText_injective {n m : Nat} (h : toText n = toText m) : n = m := by
  rw [<- Capture.Decimal.naturalOf_toText n, h, Capture.Decimal.naturalOf_toText]

section Determines

variable {e a a' : List Bytes}

/-- A line of a hunk begins with one of three marks. -/
theorem head?_hunk {previous : Option Nat} {i : Nat} {line : Bytes}
    (h : line ∈ hunk e a previous i) :
    line.head? = some '@'.toUInt8 ∨ line.head? = some '-'.toUInt8 ∨
      line.head? = some '+'.toUInt8 := by
  unfold hunk at h
  rw [List.mem_append, List.mem_append] at h
  rcases h with (h | h) | h
  · split_ifs at h
    · rw [List.mem_singleton.mp h]
      exact Or.inl rfl
    · cases h
  · obtain ⟨_, _, rfl⟩ := List.mem_map.mp h
    exact Or.inr (Or.inl rfl)
  · obtain ⟨_, _, rfl⟩ := List.mem_map.mp h
    exact Or.inr (Or.inr rfl)

/-- The first line of a hunk says whether a run begins. -/
theorem head?_hunk_append (previous : Option Nat) {i : Nat} (hi : i < max e.length a.length)
    (rest : List Bytes) : exists first lines, hunk e a previous i ++ rest = first :: lines ∧
      (first.head? = some '@'.toUInt8 <-> runStart previous i = true) := by
  unfold hunk
  cases hstart : runStart previous i with
  | true => exact ⟨_, _, rfl, fun _ => rfl, fun _ => rfl⟩
  | false =>
      have hmark : forall mark : UInt8, mark ≠ '@'.toUInt8 -> forall line : Bytes,
          (mark :: line).head? = some '@'.toUInt8 <-> false = true := by
        intro mark hne line
        constructor
        · intro hhead
          exact absurd (Option.some.inj hhead) hne
        · intro hfalse
          cases hfalse
      cases he : e[i]? with
      | some line => exact ⟨_, _, rfl, hmark _ (by decide) line⟩
      | none =>
          cases ha : a[i]? with
          | some line => exact ⟨_, _, rfl, hmark _ (by decide) line⟩
          | none =>
              rw [List.getElem?_eq_none_iff] at he ha
              omega

/-- Equal output begins with the hunk of the same position, with the same line. -/
theorem hunk_append_eq (hlength : a.length = a'.length) {previous : Option Nat} {i i' : Nat}
    (hi : i < max e.length a.length) (hi' : i' < max e.length a.length)
    {rest rest' : List Bytes}
    (h : hunk e a previous i ++ rest = hunk e a' previous i' ++ rest') :
    i = i' ∧ a[i]? = a'[i]? ∧ rest = rest' := by
  have hstart : runStart previous i = runStart previous i' := by
    obtain ⟨first, lines, hfirst, hiff⟩ := head?_hunk_append previous hi rest
    obtain ⟨first', lines', hfirst', hiff'⟩ := head?_hunk_append (e := e) (a := a')
      previous (hlength ▸ hi') rest'
    rw [h, hfirst'] at hfirst
    have heq : first' = first := (List.cons.inj hfirst).1
    rw [heq] at hiff'
    exact Bool.eq_iff_iff.mpr (hiff.symm.trans hiff')
  have hsame : i = i' := by
    cases hrun : runStart previous i with
    | true =>
        unfold hunk at h
        rw [<- hstart, hrun] at h
        have hheader := (List.cons.inj h).1
        have hnumber := List.append_cancel_left (List.append_cancel_right hheader)
        have hsucc := toText_injective hnumber
        omega
    | false =>
        have hafter : forall {j}, runStart previous j = false ->
            exists p, previous = some p ∧ p + 1 = j := by
          intro j hj
          cases previous with
          | none => cases hj
          | some p => exact ⟨p, rfl, by simpa [runStart] using hj⟩
        obtain ⟨p, hp, hnext⟩ := hafter hrun
        obtain ⟨p', hp', hnext'⟩ := hafter (hstart ▸ hrun)
        rw [hp] at hp'
        cases hp'
        omega
  subst hsame
  unfold hunk at h
  simp only [List.append_assoc] at h
  have htail := List.append_cancel_left (List.append_cancel_left h)
  refine ⟨rfl, ?_⟩
  by_cases hin : i < a.length
  · rw [List.getElem?_eq_getElem hin, List.getElem?_eq_getElem (hlength ▸ hin)] at htail ⊢
    obtain ⟨hline, hrest⟩ := List.cons.inj htail
    have hcancel := List.append_cancel_left hline
    exact ⟨congrArg some hcancel, hrest⟩
  · rw [List.getElem?_eq_none (Nat.le_of_not_lt hin),
      List.getElem?_eq_none (hlength ▸ Nat.le_of_not_lt hin)] at htail ⊢
    exact ⟨rfl, htail⟩

theorem cost_congr (hlength : a.length = a'.length) (previous : Option Nat) (i : Nat) :
    cost e a previous i = cost e a' previous i := by
  unfold cost
  rw [hlength]

theorem hunk_ne_nil {previous : Option Nat} {i : Nat} (hi : i < max e.length a.length)
    (rest : List Bytes) : hunk e a previous i ++ rest ≠ [] := by
  obtain ⟨first, lines, hfirst, _⟩ := head?_hunk_append previous hi rest
  rw [hfirst]
  exact List.cons_ne_nil _ _

/-- Equal hunks are of equal positions, with equal lines. -/
theorem hunks_eq (hlength : a.length = a'.length) (previous : Option Nat) (count : Nat)
    {positions positions' : List Nat}
    (hpositions : forall i, i ∈ positions -> i < max e.length a.length)
    (hpositions' : forall i, i ∈ positions' -> i < max e.length a.length)
    (h : (hunks e a previous count positions).1 = (hunks e a' previous count positions').1) :
    (hunks e a previous count positions).2 = (hunks e a' previous count positions').2 ∧
      positions.take (hunks e a previous count positions).2 =
        positions'.take (hunks e a previous count positions).2 ∧
      forall i, i ∈ positions.take (hunks e a previous count positions).2 -> a[i]? = a'[i]? := by
  induction positions generalizing positions' previous count with
  | nil =>
      cases positions' with
      | nil => exact ⟨rfl, rfl, fun _ hi => by cases hi⟩
      | cons i' rest' =>
          rw [hunks, hunks] at h ⊢
          split_ifs at h ⊢
          · exact ⟨rfl, rfl, fun _ hi => by cases hi⟩
          · exact absurd h.symm
              (hunk_ne_nil (hlength ▸ hpositions' i' List.mem_cons_self) _)
  | cons i rest ih =>
      rw [List.forall_mem_cons] at hpositions
      rw [hunks] at h ⊢
      split_ifs at h ⊢ with hfull
      · cases positions' with
        | nil => exact ⟨rfl, rfl, fun _ hi => by cases hi⟩
        | cons i' rest' =>
            rw [hunks] at h ⊢
            split_ifs at h ⊢
            · exact ⟨rfl, rfl, fun _ hi => by cases hi⟩
            · exact absurd h.symm
                (hunk_ne_nil (hlength ▸ hpositions' i' List.mem_cons_self) _)
      · cases positions' with
        | nil => exact absurd h (hunk_ne_nil hpositions.1 _)
        | cons i' rest' =>
            rw [List.forall_mem_cons] at hpositions'
            rw [hunks] at h ⊢
            split_ifs at h ⊢ with hfull'
            · exact absurd h (hunk_ne_nil hpositions.1 _)
            · obtain ⟨hsame, hline, hrest⟩ :=
                hunk_append_eq hlength hpositions.1 hpositions'.1 h
              subst hsame
              rw [<- cost_congr hlength] at hrest ⊢
              obtain ⟨hcount, htake, hlines⟩ := ih (some i) _ hpositions.2 hpositions'.2 hrest
              refine ⟨congrArg (· + 1) hcount, ?_, ?_⟩
              · rw [List.take_succ_cons, List.take_succ_cons, htake]
              · rw [List.take_succ_cons, List.forall_mem_cons]
                exact ⟨hline, hlines⟩

/-- How many of the differing positions are printed. -/
def consumed (e a : List Bytes) : Nat := (hunks e a none 2 (differing e a)).2

theorem hunks_le (e a : List Bytes) (previous : Option Nat) (count : Nat) (positions : List Nat) :
    (hunks e a previous count positions).2 ≤ positions.length := by
  induction positions generalizing previous count with
  | nil => exact Nat.le_refl 0
  | cons i rest ih =>
      rw [hunks]
      split_ifs
      · exact Nat.zero_le _
      · exact Nat.succ_le_succ (ih _ _)

/-- Of different lines, at least one is shown. -/
theorem consumed_pos (h : e ≠ a) : 0 < consumed e a := by
  unfold consumed
  cases hdiffering : differing e a with
  | nil => exact absurd (differing_eq_nil.mp hdiffering) h
  | cons i rest =>
      have hcost : cost e a none i ≤ 3 := by
        unfold cost
        split_ifs
        all_goals decide
      rw [hunks, if_neg]
      · exact Nat.succ_pos _
      · rw [Nat.not_lt]
        exact Nat.le_trans (Nat.add_le_add_left hcost 2) (by decide)

/-- A line that says how many lines are left out begins with a dot. -/
theorem head?_hunks {previous : Option Nat} {count : Nat} {positions : List Nat} {line : Bytes}
    (h : line ∈ (hunks e a previous count positions).1) : line.head? ≠ some '.'.toUInt8 := by
  induction positions generalizing previous count with
  | nil => cases h
  | cons i rest ih =>
      rw [hunks] at h
      split_ifs at h
      · cases h
      · rcases List.mem_append.mp h with hhunk | hrest
        · rcases head?_hunk hhunk with hmark | hmark | hmark
          · rw [hmark]
            decide
          · rw [hmark]
            decide
          · rw [hmark]
            decide
        · exact ih hrest

theorem takeWhile_body {body : List Bytes} {n : Nat} (more : Prop) [Decidable more]
    (h : forall line, line ∈ body -> line.head? ≠ some '.'.toUInt8) :
    (body ++
      if more then [ascii "... " ++ toText n ++ ascii " more differing lines"] else []).takeWhile
      (fun line => line.head? != some '.'.toUInt8) = body := by
  rw [List.takeWhile_append_of_pos (by simpa using h)]
  split_ifs
  · have hdot : (ascii "... " ++ toText n ++ ascii " more differing lines").head? =
        some '.'.toUInt8 := rfl
    rw [List.takeWhile_cons, hdot, if_neg (by decide), List.append_nil]
  · rw [List.takeWhile_nil, List.append_nil]

theorem newline_not_mem_toText (n : Nat) : newline ∉ toText n := by
  intro h
  have hdigit := Capture.Decimal.isDigit_of_mem h
  revert hdigit
  decide

theorem newline_not_mem_hunks {expected actual : Bytes} {previous : Option Nat} {count : Nat}
    {positions : List Nat} {line : Bytes}
    (h : line ∈ (hunks (linesOf expected) (linesOf actual) previous count positions).1) :
    newline ∉ line := by
  have hside : forall (mark text : Bytes) (i : Nat), newline ∉ mark ->
      line ∈ ((linesOf text)[i]?.toList.map fun l => mark ++ l) -> newline ∉ line := by
    intro mark text i hmark hline
    obtain ⟨l, hl, rfl⟩ := List.mem_map.mp hline
    rw [List.mem_append, not_or]
    exact ⟨hmark, newline_not_mem (List.mem_of_getElem? (Option.mem_toList.mp hl))⟩
  induction positions generalizing previous count with
  | nil => cases h
  | cons i rest ih =>
      rw [hunks] at h
      split_ifs at h
      · cases h
      · rcases List.mem_append.mp h with hhunk | hrest
        · unfold hunk at hhunk
          rw [List.mem_append, List.mem_append] at hhunk
          rcases hhunk with (hrun | hminus) | hplus
          · split_ifs at hrun
            · rw [List.mem_singleton.mp hrun]
              simp only [List.mem_append, not_or]
              exact ⟨⟨by decide, newline_not_mem_toText _⟩, by decide⟩
            · cases hrun
          · exact hside _ expected i (by decide) hminus
          · exact hside _ actual i (by decide) hplus
        · exact ih hrest

theorem newline_not_mem_diffLines {expected actual minus plus : Bytes} (hminus : newline ∉ minus)
    (hplus : newline ∉ plus) {line : Bytes}
    (h : line ∈ diffLines (linesOf expected) (linesOf actual) minus plus) : newline ∉ line := by
  have hheader : forall mark name lines, newline ∉ mark -> newline ∉ name ->
      newline ∉ headerLine mark name lines := by
    intro mark name lines hmark hname
    unfold headerLine
    simp only [List.mem_append, not_or]
    exact ⟨⟨⟨⟨hmark, hname⟩, by decide⟩, newline_not_mem_toText _⟩, by decide⟩
  unfold diffLines at h
  rw [List.mem_append, List.mem_append] at h
  rcases h with (h | h) | h
  · rcases List.mem_cons.mp h with heq | hmem
    · rw [heq]
      exact hheader _ _ _ (by decide) hminus
    · rw [List.mem_singleton.mp hmem]
      exact hheader _ _ _ (by decide) hplus
  · exact newline_not_mem_hunks h
  · split_ifs at h
    · rw [List.mem_singleton.mp h]
      simp only [List.mem_append, not_or]
      exact ⟨⟨by decide, newline_not_mem_toText _⟩, by decide⟩
    · cases h

/-- Equal output of two texts against the same one. -/
theorem diffLines_eq {minus plus : Bytes}
    (h : diffLines e a minus plus = diffLines e a' minus plus) :
    a.length = a'.length ∧ (differing e a).length = (differing e a').length ∧
      consumed e a = consumed e a' ∧
      (differing e a).take (consumed e a) = (differing e a').take (consumed e a) ∧
      forall i, i ∈ (differing e a).take (consumed e a) -> a[i]? = a'[i]? := by
  unfold diffLines at h
  simp only [List.cons_append, List.nil_append, List.cons.injEq, true_and] at h
  obtain ⟨hheader, hbody⟩ := h
  have hlength : a.length = a'.length := by
    unfold headerLine at hheader
    simp only [List.append_assoc] at hheader
    have hnumber := List.append_cancel_left (List.append_cancel_left
      (List.append_cancel_left hheader))
    exact toText_injective (List.append_cancel_right hnumber)
  have hhunks : (hunks e a none 2 (differing e a)).1 = (hunks e a' none 2 (differing e a')).1 := by
    have htake := congrArg (List.takeWhile fun line => line.head? != some '.'.toUInt8) hbody
    rw [takeWhile_body _ (fun _ hline => head?_hunks hline),
      takeWhile_body _ (fun _ hline => head?_hunks hline)] at htake
    exact htake
  have hin : forall {b : List Bytes}, b.length = a.length -> forall i, i ∈ differing e b ->
      i < max e.length a.length := by
    intro b hb i hi
    unfold differing at hi
    rw [List.mem_filter, List.mem_range, hb] at hi
    exact hi.1
  obtain ⟨hcount, htake, hlines⟩ := hunks_eq hlength none 2 (hin rfl) (hin hlength.symm) hhunks
  refine ⟨hlength, ?_, hcount, htake, hlines⟩
  rw [hhunks, hcount] at hbody
  have htail := List.append_cancel_left hbody
  have hle := hunks_le e a none 2 (differing e a)
  have hle' := hunks_le e a' none 2 (differing e a')
  split_ifs at htail with hmore hmore'
  · have htext := List.append_cancel_right (List.cons.inj htail).1
    have hrest := toText_injective (List.append_cancel_left htext)
    omega
  · omega

theorem mem_take_of_le {positions : List Nat} (h : positions.Pairwise (· < ·)) {k i j : Nat}
    (hj : j ∈ positions.take k) (hi : i ∈ positions) (hij : i ≤ j) : i ∈ positions.take k := by
  rw [<- List.take_append_drop k positions, List.pairwise_append] at h
  rw [<- List.take_append_drop k positions, List.mem_append] at hi
  rcases hi with htake | hdrop
  · exact htake
  · have hlt := h.2.2 j hj i hdrop
    omega

/--
The printed differences from one text say how many lines of the other differ and determine its
lines up to the last that is shown, and all of them when no differing line is left out.
-/
theorem printDiff_determines {expected actual actual' minus plus : Bytes}
    (hminus : newline ∉ minus) (hplus : newline ∉ plus)
    (h : printDiff expected actual minus plus = printDiff expected actual' minus plus) :
    (differing (linesOf expected) (linesOf actual)).length =
        (differing (linesOf expected) (linesOf actual')).length ∧
      (forall i j, j ∈ (differing (linesOf expected) (linesOf actual)).take
          (consumed (linesOf expected) (linesOf actual)) -> i ≤ j ->
        (linesOf actual)[i]? = (linesOf actual')[i]?) ∧
      (consumed (linesOf expected) (linesOf actual) =
          (differing (linesOf expected) (linesOf actual)).length ->
        linesOf actual = linesOf actual') := by
  have hlines := congrArg linesOf h
  unfold printDiff at hlines
  rw [linesOf_printed (fun _ hline => newline_not_mem_diffLines hminus hplus hline),
    linesOf_printed (fun _ hline => newline_not_mem_diffLines hminus hplus hline)] at hlines
  generalize linesOf expected = e at hlines ⊢
  generalize linesOf actual = a at hlines ⊢
  generalize linesOf actual' = a' at hlines ⊢
  obtain ⟨_, hcount, hconsumed, htake, hshown⟩ := diffLines_eq hlines
  refine ⟨hcount, ?_, ?_⟩
  · intro i j hj hij
    by_cases hi : i ∈ differing e a
    · exact hshown i (mem_take_of_le (differing_sorted e a) hj hi hij)
    · by_cases hi' : i ∈ differing e a'
      · rw [htake] at hj
        have hmem := mem_take_of_le (differing_sorted e a') hj hi' hij
        rw [<- htake] at hmem
        exact absurd (List.mem_of_mem_take hmem) hi
      · rw [mem_differing, not_not] at hi hi'
        exact hi.symm.trans hi'
  · intro hcomplete
    rw [hcomplete, List.take_length] at htake hshown
    rw [hcount, List.take_length] at htake
    apply List.ext_getElem?
    intro i
    by_cases hi : i ∈ differing e a
    · exact hshown i hi
    · have hi' : i ∉ differing e a' := htake ▸ hi
      rw [mem_differing, not_not] at hi hi'
      exact hi.symm.trans hi'

/-- A text and the same text without its last newline. -/
theorem printDiff_determines_ended :
    (differing (linesOf (ascii "a\nb\n")) (linesOf (ascii "a\nc\n"))).length =
        (differing (linesOf (ascii "a\nb\n")) (linesOf (ascii "a\nc"))).length ∧
      (forall i j, j ∈ (differing (linesOf (ascii "a\nb\n")) (linesOf (ascii "a\nc\n"))).take
          (consumed (linesOf (ascii "a\nb\n")) (linesOf (ascii "a\nc\n"))) -> i ≤ j ->
        (linesOf (ascii "a\nc\n"))[i]? = (linesOf (ascii "a\nc"))[i]?) ∧
      (consumed (linesOf (ascii "a\nb\n")) (linesOf (ascii "a\nc\n")) =
          (differing (linesOf (ascii "a\nb\n")) (linesOf (ascii "a\nc\n"))).length ->
        linesOf (ascii "a\nc\n") = linesOf (ascii "a\nc")) :=
  @printDiff_determines _ _ _ (ascii "expected") (ascii "actual") (by decide) (by decide)
    (by decide)

end Determines

end Tool
end Ostia

import Mathlib.Data.List.Basic

/-!
# Words of the shell

A list of words is written as one line, each word quoted where it needs it, and read back by
splitting the line at blanks outside of quotes and removing the quotes.
-/

namespace Ostia
namespace Foundation
namespace ShellWords

/-!
## Writing
-/

/-- A character that needs no quotes. -/
def isSafe (c : Char) : Bool := c.isAlphanum || "_@%+=:,./-".toList.contains c

/-- A single quote leaves the quotes, and stands in double quotes. -/
def escape (c : Char) : List Char := if c = '\'' then ['\'', '"', '\'', '"', '\''] else [c]

def quote (s : List Char) : List Char :=
  if s = [] then ['\'', '\'']
  else if s.all isSafe then s
  else '\'' :: (s.flatMap escape ++ ['\''])

def join (words : List (List Char)) : List Char := [' '].intercalate (words.map quote)

/-!
## Reading
-/

/-- Where a character stands: between two words, in a word, or in quotes of either kind. -/
inductive Mode where
  | between
  | plain
  | single
  | double
deriving DecidableEq, Repr

/-- A character of the word that is read. -/
def push (c : Char) : Option (List (List Char)) -> Option (List (List Char))
  | some (w :: ws) => some ((c :: w) :: ws)
  | _ => none

def isBlank (c : Char) : Bool := c == ' ' || c == '\t' || c == '\n'

/-- A character that is not taken as it is between double quotes. -/
def isSpecial (c : Char) : Bool := c == '$' || c == '`' || c == '\\'

/-- The words of the rest of a line; inside of a word, the first of them is its rest.  A character
that means anything else to the shell is not read. -/
def scan : Mode -> List Char -> Option (List (List Char))
  | .between, [] => some []
  | .plain, [] => some [[]]
  | .single, [] => none
  | .double, [] => none
  | .between, c :: r =>
      if isBlank c then scan .between r
      else if c = '\'' then scan .single r
      else if c = '"' then scan .double r
      else if isSafe c then push c (scan .plain r)
      else none
  | .plain, c :: r =>
      if isBlank c then (scan .between r).map fun ws => [] :: ws
      else if c = '\'' then scan .single r
      else if c = '"' then scan .double r
      else if isSafe c then push c (scan .plain r)
      else none
  | .single, c :: r => if c = '\'' then scan .plain r else push c (scan .single r)
  | .double, c :: r =>
      if c = '"' then scan .plain r
      else if isSpecial c then none
      else push c (scan .double r)

/-- The words of a line. -/
def words (cs : List Char) : Option (List (List Char)) := scan .between cs

/-!
## Reading what was written
-/

section RoundTrip

variable {s rest w : List Char} {ws : List (List Char)}

theorem isSafe_plain {c : Char} (h : isSafe c = true) :
    isBlank c = false ∧ c ≠ '\'' ∧ c ≠ '"' := by
  constructor
  · cases hblank : isBlank c with
    | false => rfl
    | true =>
        simp only [isBlank, Bool.or_eq_true, beq_iff_eq] at hblank
        rcases hblank with (rfl | rfl) | rfl
        · exact absurd h (by decide)
        · exact absurd h (by decide)
        · exact absurd h (by decide)
  · constructor
    · intro hc
      rw [hc] at h
      exact absurd h (by decide)
    · intro hc
      rw [hc] at h
      exact absurd h (by decide)

theorem scan_plain_safe {c : Char} {r : List Char} (h : isSafe c = true) :
    scan .plain (c :: r) = push c (scan .plain r) := by
  obtain ⟨hblank, hsingle, hdouble⟩ := isSafe_plain h
  rw [scan, if_neg (by simp [hblank]), if_neg hsingle, if_neg hdouble, if_pos h]

theorem scan_between_safe {c : Char} {r : List Char} (h : isSafe c = true) :
    scan .between (c :: r) = push c (scan .plain r) := by
  obtain ⟨hblank, hsingle, hdouble⟩ := isSafe_plain h
  rw [scan, if_neg (by simp [hblank]), if_neg hsingle, if_neg hdouble, if_pos h]

theorem scan_safe (hs : s.all isSafe = true) (h : scan .plain rest = some (w :: ws)) :
    scan .plain (s ++ rest) = some ((s ++ w) :: ws) := by
  induction s with
  | nil => exact h
  | cons c s ih =>
      rw [List.all_cons, Bool.and_eq_true] at hs
      rw [List.cons_append, scan_plain_safe hs.1, ih hs.2]
      rfl

theorem scan_escaped (h : scan .plain rest = some (w :: ws)) :
    scan .single (s.flatMap escape ++ '\'' :: rest) = some ((s ++ w) :: ws) := by
  induction s with
  | nil =>
      show scan .single ('\'' :: rest) = _
      rw [scan, if_pos rfl, h]
      rfl
  | cons c s ih =>
      rw [List.flatMap_cons, List.append_assoc, escape]
      split_ifs with hc
      · -- The quotes are left, the double quotes hold the character, and they are entered again.
        have hquote : scan .plain ('\'' :: (s.flatMap escape ++ '\'' :: rest)) =
            some ((s ++ w) :: ws) := by
          rw [scan, if_neg (by decide), if_pos rfl, ih]
        have hdouble : scan .double ('\'' :: '"' :: '\'' :: (s.flatMap escape ++ '\'' :: rest)) =
            some (('\'' :: (s ++ w)) :: ws) := by
          rw [scan, if_neg (by decide), if_neg (by decide), scan, if_pos rfl, hquote]
          rfl
        show scan .single ('\'' :: '"' :: '\'' :: '"' :: '\'' ::
          (s.flatMap escape ++ '\'' :: rest)) = _
        rw [scan, if_pos rfl, scan, if_neg (by decide), if_neg (by decide), if_pos rfl, hdouble, hc]
        rfl
      · show scan .single (c :: (s.flatMap escape ++ '\'' :: rest)) = _
        rw [scan, if_neg hc, ih]
        rfl

theorem scan_quote (h : scan .plain rest = some ([] :: ws)) :
    scan .between (quote s ++ rest) = some (s :: ws) := by
  unfold quote
  split_ifs with hnil hsafe
  · show scan .between ('\'' :: '\'' :: rest) = _
    rw [scan, if_neg (by decide), if_pos rfl, scan, if_pos rfl, h, hnil]
  · cases s with
    | nil => exact absurd rfl hnil
    | cons c s =>
        rw [List.all_cons, Bool.and_eq_true] at hsafe
        rw [List.cons_append, scan_between_safe hsafe.1, scan_safe hsafe.2 h, List.append_nil]
        rfl
  · show scan .between ('\'' :: ((s.flatMap escape ++ ['\'']) ++ rest)) = _
    rw [scan, if_neg (by decide), if_pos rfl, List.append_assoc, List.singleton_append,
      scan_escaped h, List.append_nil]

/-- Words come back as they were written. -/
theorem words_join (argv : List (List Char)) : words (join argv) = some argv := by
  unfold words join
  induction argv with
  | nil => rfl
  | cons s rest ih =>
      cases rest with
      | nil =>
          have hend : scan .plain [] = some [[]] := rfl
          have hquote := scan_quote (s := s) hend
          rw [List.append_nil] at hquote
          rw [List.map_singleton, List.intercalate_singleton]
          exact hquote
      | cons t rest =>
          rw [List.map_cons, List.map_cons, List.intercalate_cons_cons, <- List.map_cons,
            List.append_assoc]
          apply scan_quote
          show scan .plain (' ' :: [' '].intercalate ((t :: rest).map quote)) = _
          rw [scan, if_pos (by decide), ih]
          rfl

end RoundTrip

/-!
## Characters that are read
-/

theorem push_sublist {c : Char} {r : List Char} {found : Option (List (List Char))}
    {ws : List (List Char)} (hfound : forall vs, found = some vs -> vs.flatten.Sublist r)
    (h : push c found = some ws) : ws.flatten.Sublist (c :: r) := by
  unfold push at h
  split at h
  · cases h
    rw [List.flatten_cons, List.cons_append]
    exact (hfound _ rfl).cons_cons c
  · cases h

/-- Reading drops characters and adds none. -/
theorem scan_sublist (mode : Mode) (cs : List Char) {ws : List (List Char)}
    (h : scan mode cs = some ws) : ws.flatten.Sublist cs := by
  induction cs generalizing mode ws with
  | nil =>
      cases mode with
      | between =>
          cases h
          exact List.Sublist.slnil
      | plain =>
          cases h
          exact List.Sublist.slnil
      | single => cases h
      | double => cases h
  | cons c r ih =>
      cases mode with
      | between =>
          rw [scan] at h
          split_ifs at h
          · exact (ih _ h).cons c
          · exact (ih _ h).cons c
          · exact (ih _ h).cons c
          · exact push_sublist (fun vs hvs => ih _ hvs) h
      | plain =>
          rw [scan] at h
          split_ifs at h
          · obtain ⟨vs, hvs, rfl⟩ := Option.map_eq_some_iff.mp h
            rw [List.flatten_cons, List.nil_append]
            exact (ih _ hvs).cons c
          · exact (ih _ h).cons c
          · exact (ih _ h).cons c
          · exact push_sublist (fun vs hvs => ih _ hvs) h
      | single =>
          rw [scan] at h
          split_ifs at h
          · exact (ih _ h).cons c
          · exact push_sublist (fun vs hvs => ih _ hvs) h
      | double =>
          rw [scan] at h
          split_ifs at h
          · exact (ih _ h).cons c
          · exact push_sublist (fun vs hvs => ih _ hvs) h

theorem words_sublist {cs : List Char} {ws : List (List Char)} (h : words cs = some ws) :
    ws.flatten.Sublist cs := scan_sublist .between cs h

/-- Quoting adds quotes only. -/
theorem count_quote {c : Char} (hsingle : c ≠ '\'') (hdouble : c ≠ '"') (s : List Char) :
    (quote s).count c = s.count c := by
  have hescape : forall s : List Char, (s.flatMap escape).count c = s.count c := by
    intro s
    induction s with
    | nil => rfl
    | cons d s ih =>
        rw [List.flatMap_cons, List.count_append, ih, escape]
        split_ifs with hd
        · rw [hd]
          simp [hsingle.symm, hdouble.symm]
        · rw [List.count_cons, List.count_cons, List.count_nil]
          omega
  unfold quote
  split_ifs with hnil
  · rw [hnil]
    simp [hsingle.symm]
  · rfl
  · rw [List.count_cons_of_ne hsingle.symm, List.count_append, hescape,
      List.count_cons_of_ne hsingle.symm, List.count_nil, Nat.add_zero]

theorem count_join {c : Char} (hsingle : c ≠ '\'') (hdouble : c ≠ '"') (hspace : c ≠ ' ')
    (argv : List (List Char)) : (join argv).count c = argv.flatten.count c := by
  unfold join
  induction argv with
  | nil => rfl
  | cons s rest ih =>
      cases rest with
      | nil =>
          rw [List.map_singleton, List.intercalate_singleton, count_quote hsingle hdouble,
            List.flatten_singleton]
      | cons t rest =>
          rw [List.map_cons, List.map_cons, List.intercalate_cons_cons, <- List.map_cons,
            List.count_append, List.count_append, ih, count_quote hsingle hdouble,
            List.count_cons_of_ne hspace.symm, List.count_nil, Nat.add_zero]
          exact List.count_append.symm

end ShellWords
end Foundation
end Ostia

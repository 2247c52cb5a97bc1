import Mathlib.Data.List.TakeWhile
import Mathlib.Data.String.Basic
import Mathlib.Data.List.Infix
import Ostia.Foundation.Deciding

/-!
# Python text

The operations on strings that the tools take from Python: splitting a text into
lines, the parts around the first blank, prefixes and words.
-/

namespace Ostia
namespace Dev
namespace Text

/-!
## Lines
-/

/-- The line ends of a stream in text mode, read with universal newlines. -/
def isNewline (c : Char) : Bool := c == '\n' || c == '\r'

/-- The line boundaries of splitlines. -/
def isBoundary (c : Char) : Bool :=
  ['\n', '\r', '\x0b', '\x0c', '\x1c', '\x1d', '\x1e', '\u0085', '\u2028', '\u2029'].contains c

/--
The lines of the rest of a text, without their ends, when part of a line was read
already.  A line feed after a carriage return belongs to the same end.
-/
def linesFrom (isEnd : Char -> Bool) : Bool -> List Char -> List Char -> List (List Char)
  | _, line, [] => if line = [] then [] else [line]
  | afterReturn, line, c :: rest =>
      if afterReturn && c == '\n' then linesFrom isEnd false [] rest
      else if isEnd c then line :: linesFrom isEnd (c == '\r') [] rest
      else linesFrom isEnd false (line ++ [c]) rest

/-- The lines that a loop over a text stream yields, each without its line feed. -/
def streamLines (text : String) : List String :=
  (linesFrom isNewline false [] text.toList).map String.ofList

def splitlines (text : String) : List String :=
  (linesFrom isBoundary false [] text.toList).map String.ofList

theorem linesFrom_line {isEnd : Char -> Bool} (hend : isEnd '\n' = true) {l : List Char}
    (hl : forall c, c ∈ l -> isEnd c = false) (line rest : List Char) :
    linesFrom isEnd false line (l ++ '\n' :: rest) =
      (line ++ l) :: linesFrom isEnd false [] rest := by
  induction l generalizing line with
  | nil =>
      rw [List.nil_append, linesFrom, List.append_nil]
      simp [hend]
  | cons c l ih =>
      have hc := hl c List.mem_cons_self
      rw [List.cons_append, linesFrom]
      simp only [Bool.false_and, Bool.false_eq_true, if_false, hc]
      rw [ih (fun c' hc' => hl c' (List.mem_cons_of_mem c hc')), List.append_assoc,
        List.singleton_append]

/-- No line holds a character that ends lines. -/
theorem notEnd_of_mem_linesFrom {isEnd : Char -> Bool} {text : List Char} {cr : Bool}
    {line l : List Char} (hline : forall c, c ∈ line -> isEnd c = false)
    (h : l ∈ linesFrom isEnd cr line text) : forall c, c ∈ l -> isEnd c = false := by
  induction text generalizing cr line with
  | nil =>
      rw [linesFrom] at h
      split_ifs at h
      · cases h
      · rw [List.mem_singleton.mp h]
        exact hline
  | cons c rest ih =>
      rw [linesFrom] at h
      split_ifs at h with hcr hend
      · exact ih (fun c' hc' => by cases hc') h
      · rcases List.mem_cons.mp h with h | h
        · rw [h]
          exact hline
        · exact ih (fun c' hc' => by cases hc') h
      · refine ih ?_ h
        intro c' hc'
        rcases List.mem_append.mp hc' with hc' | hc'
        · exact hline c' hc'
        · rw [List.mem_singleton.mp hc']
          exact Bool.eq_false_iff.mpr hend

/-- Lines without an end in them are read as they were written. -/
theorem linesFrom_lines {isEnd : Char -> Bool} (hend : isEnd '\n' = true)
    {ls : List (List Char)} (hls : forall l, l ∈ ls -> forall c, c ∈ l -> isEnd c = false)
    (rest : List Char) :
    linesFrom isEnd false [] (ls.flatMap (fun l => l ++ ['\n']) ++ rest) =
      ls ++ linesFrom isEnd false [] rest := by
  induction ls with
  | nil => rfl
  | cons l ls ih =>
      rw [List.flatMap_cons, List.append_assoc, List.append_assoc, List.singleton_append,
        linesFrom_line hend (hls l List.mem_cons_self), List.nil_append, List.cons_append,
        ih (fun l' hl' => hls l' (List.mem_cons_of_mem l hl'))]

/-!
## Parts of a line
-/

/-- The parts before and after the first blank; the second is empty when there is none. -/
def partition (s : String) : String × String :=
  (String.ofList (s.toList.takeWhile (· != ' ')),
    String.ofList ((s.toList.dropWhile (· != ' ')).drop 1))

theorem partition_append {a b : String} (h : forall c, c ∈ a.toList -> c ≠ ' ') :
    partition (a ++ " " ++ b) = (a, b) := by
  have hall : forall c, c ∈ a.toList -> (c != ' ') = true := by
    intro c hc
    rw [bne_iff_ne]
    exact h c hc
  have htext : (a ++ " " ++ b).toList = a.toList ++ ' ' :: b.toList := by
    rw [String.toList_append, String.toList_append]
    simp
  unfold partition
  rw [htext, List.takeWhile_append_of_pos hall, List.dropWhile_append_of_pos hall]
  simp

theorem mem_partition_snd {s : String} {c : Char} (h : c ∈ (partition s).2.toList) :
    c ∈ s.toList := by
  unfold partition at h
  rw [String.toList_ofList] at h
  exact (List.dropWhile_suffix _).subset (List.mem_of_mem_drop h)

def startsWith (s pre : String) : Bool := pre.toList.isPrefixOf s.toList

def endsWith (s post : String) : Bool := post.toList.isSuffixOf s.toList

/-- A text without a start that it may have. -/
def dropStart (s pre : String) : String :=
  if startsWith s pre then String.ofList (s.toList.drop pre.toList.length) else s

def contains (s part : String) : Bool := decide (part.toList <:+: s.toList)

/-- The white space that separates words. -/
def isSpace (c : Char) : Bool :=
  (9 ≤ c.toNat && c.toNat ≤ 13) || (28 ≤ c.toNat && c.toNat ≤ 32) || c.toNat == 133 ||
    c.toNat == 160 || c.toNat == 5760 || (8192 ≤ c.toNat && c.toNat ≤ 8202) ||
    c.toNat == 8232 || c.toNat == 8233 || c.toNat == 8239 || c.toNat == 8287 ||
    c.toNat == 12288

/-- The words of the rest of a text when part of a word was read already. -/
def wordsFrom : List Char -> List Char -> List (List Char)
  | word, [] => if word = [] then [] else [word]
  | word, c :: rest =>
      if isSpace c then
        if word = [] then wordsFrom [] rest else word :: wordsFrom [] rest
      else wordsFrom (word ++ [c]) rest

def words (s : String) : List String := (wordsFrom [] s.toList).map String.ofList

/-- A text without the white space at its ends. -/
def strip (s : String) : String :=
  String.ofList (((s.toList.dropWhile isSpace).reverse.dropWhile isSpace).reverse)

/-- A line of white space only. -/
def isBlank (s : String) : Bool := s.toList.all isSpace

/-- The shape of every error message. -/
def violation (problem : String) (details : List String) (rule fix see : String) : String :=
  "\n".intercalate (["error: " ++ problem] ++ details.map (fun d => "  " ++ d) ++
    ["  rule: " ++ rule, "  fix: " ++ fix, "  see: " ++ see])

end Text
end Dev
end Ostia

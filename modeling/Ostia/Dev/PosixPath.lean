import Mathlib.Data.List.Infix
import Mathlib.Data.String.Basic

/-!
# Paths and patterns

The pure operations on path names that the tools take from Python: the segments between slashes,
the parts of a path, file name patterns, joining, and the text before a separator.
-/

namespace Ostia
namespace Dev
namespace PosixPath

abbrev Name := List Char

/-- The text split at each slash. -/
def segments : Name -> List Name
  | [] => [[]]
  | c :: cs =>
      if c = '/' then [] :: segments cs
      else
        match segments cs with
        | [] => [[c]]
        | s :: ss => (c :: s) :: ss

/-- The parts of a relative path; the empty ones and the dots are dropped. -/
def parts (path : Name) : List Name :=
  (segments path).filter fun s => s ≠ [] ∧ s ≠ ['.']

def isAbsolute (path : Name) : Bool := path.head? = some '/'

def join (base path : Name) : Name :=
  if isAbsolute path then path
  else if base = [] ∨ base.getLast? = some '/' then base ++ path
  else base ++ '/' :: path

/-- The text without the slashes at its end. -/
def stripSlashes (path : Name) : Name := (path.reverse.dropWhile (· = '/')).reverse

/-- Match a name with a pattern of literal characters and stars; a star stands for any text. -/
def matchPattern : Name -> Name -> Bool
  | [], name => name.isEmpty
  | c :: pattern, name =>
      if c = '*' then name.tails.any (matchPattern pattern)
      else
        match name with
        | [] => false
        | d :: rest => c == d && matchPattern pattern rest

def fnmatch (name pattern : Name) : Bool := matchPattern pattern name

/-- The text before the first occurrence of a separator, or all of it. -/
def before (sep : Name) : Name -> Name
  | [] => []
  | c :: cs => if sep <+: c :: cs then [] else c :: before sep cs

/-- A start of a text without the character after another start is a start of that one. -/
theorem prefix_of_append_eq {a b x y : Name} {c : Char} (hc : c ∉ a)
    (h : a ++ x = b ++ c :: y) : a <+: b := by
  rcases List.prefix_or_prefix_of_prefix ⟨x, rfl⟩ ⟨c :: y, h.symm⟩ with hab | hba
  · exact hab
  · obtain ⟨r, rfl⟩ := hba
    rw [List.append_assoc] at h
    have hr := List.append_cancel_left h
    cases r with
    | nil => simp
    | cons d r =>
        rw [List.cons_append, List.cons.injEq] at hr
        exact absurd (List.mem_append_right b (hr.1 ▸ List.mem_cons_self)) hc

theorem suffix_of_append_eq {a b x y : Name} {c : Char} (hc : c ∉ a)
    (h : x ++ a = y ++ c :: b) : a <:+ b := by
  rw [← List.reverse_prefix]
  refine prefix_of_append_eq (fun hmem => hc (List.mem_reverse.mp hmem))
    (x := x.reverse) (y := y.reverse) (c := c) ?_
  have hreverse := congrArg List.reverse h
  simpa using hreverse

/-!
## Segments and parts
-/

theorem segments_ne_nil (path : Name) : segments path ≠ [] := by
  cases path with
  | nil => simp [segments]
  | cons c cs =>
      rw [segments]
      split
      · simp
      · split <;> simp

theorem segments_append {dir : Name} (h : '/' ∉ dir) (rest : Name) :
    segments (dir ++ '/' :: rest) = dir :: segments rest := by
  induction dir with
  | nil => rw [List.nil_append, segments, if_pos rfl]
  | cons c dir ih =>
      rw [List.mem_cons, not_or] at h
      rw [List.cons_append, segments, if_neg (Ne.symm h.1), ih h.2]

theorem segments_single {name : Name} (h : '/' ∉ name) : segments name = [name] := by
  induction name with
  | nil => rfl
  | cons c name ih =>
      rw [List.mem_cons, not_or] at h
      rw [segments, if_neg (Ne.symm h.1), ih h.2]

theorem parts_append {dir : Name} (hslash : '/' ∉ dir) (hne : dir ≠ []) (hdot : dir ≠ ['.'])
    (rest : Name) : parts (dir ++ '/' :: rest) = dir :: parts rest := by
  rw [parts, segments_append hslash, List.filter_cons_of_pos (by simp [hne, hdot])]
  rfl

theorem parts_single {name : Name} (hslash : '/' ∉ name) (hne : name ≠ []) (hdot : name ≠ ['.']) :
    parts name = [name] := by
  rw [parts, segments_single hslash, List.filter_cons_of_pos (by simp [hne, hdot])]
  rfl

/-- Only a text of slashes has no segment but empty ones. -/
theorem eq_slash_of_segments {path : Name} (h : forall s, s ∈ segments path -> s = []) :
    forall c, c ∈ path -> c = '/' := by
  induction path with
  | nil => exact fun c hc => (List.not_mem_nil hc).elim
  | cons d path ih =>
      rw [segments] at h
      by_cases hd : d = '/'
      · rw [if_pos hd, List.forall_mem_cons] at h
        intro c hc
        cases List.mem_cons.mp hc with
        | inl hc => exact hc.trans hd
        | inr hc => exact ih h.2 c hc
      · rw [if_neg hd] at h
        cases hsegments : segments path with
        | nil => exact absurd hsegments (segments_ne_nil path)
        | cons s ss =>
            rw [hsegments] at h
            exact absurd (h _ List.mem_cons_self) (List.cons_ne_nil d s)

theorem parts_slashes {path : Name} (h : forall c, c ∈ path -> c = '/') : parts path = [] := by
  induction path with
  | nil => decide
  | cons d path ih =>
      rw [List.forall_mem_cons] at h
      rw [parts, segments, if_pos h.1, List.filter_cons_of_neg (by simp)]
      exact ih h.2

/-- A text whose last segment but empty ones is no dot has a part, unless it is of slashes. -/
theorem eq_slash_of_parts {path : Name} (hparts : parts path = [])
    (hlast : ((segments path).filter (· ≠ [])).getLast? ≠ some ['.']) :
    forall c, c ∈ path -> c = '/' := by
  apply eq_slash_of_segments
  intro s hs
  by_contra hne
  have hdots : forall s, s ∈ (segments path).filter (· ≠ []) -> s = ['.'] := by
    intro s hs
    rw [List.mem_filter, decide_eq_true_iff] at hs
    by_contra hdot
    have hpart : s ∈ parts path := List.mem_filter.mpr ⟨hs.1, by simp [hs.2, hdot]⟩
    rw [hparts] at hpart
    cases hpart
  have hmem : s ∈ (segments path).filter (· ≠ []) := List.mem_filter.mpr ⟨hs, by simp [hne]⟩
  cases hend : ((segments path).filter (· ≠ [])).getLast? with
  | none =>
      rw [List.getLast?_eq_none_iff] at hend
      rw [hend] at hmem
      cases hmem
  | some last =>
      apply hlast
      rw [hend, hdots last (List.mem_of_getLast? hend)]

/-!
## Patterns
-/

theorem fnmatch_nil {name : Name} : fnmatch name [] = true <-> name = [] :=
  List.isEmpty_iff

theorem fnmatch_star {name rest : Name} :
    fnmatch name ('*' :: rest) = true <->
      exists front back, name = front ++ back ∧ fnmatch back rest = true := by
  show name.tails.any (matchPattern rest) = true <-> _
  rw [List.any_eq_true]
  constructor
  · intro h
    obtain ⟨back, hback, hmatch⟩ := h
    obtain ⟨front, hfront⟩ := (List.mem_tails _ _).mp hback
    exact ⟨front, back, hfront.symm, hmatch⟩
  · intro h
    obtain ⟨front, back, hname, hmatch⟩ := h
    exact ⟨back, (List.mem_tails _ _).mpr ⟨front, hname.symm⟩, hmatch⟩

theorem fnmatch_literal {literal name rest : Name} (h : '*' ∉ literal) :
    fnmatch name (literal ++ rest) = true <->
      exists back, name = literal ++ back ∧ fnmatch back rest = true := by
  induction literal generalizing name with
  | nil => simp
  | cons c literal ih =>
      rw [List.mem_cons, not_or] at h
      have hstep : fnmatch name (c :: (literal ++ rest)) =
          match name with
          | [] => false
          | d :: name => c == d && fnmatch name (literal ++ rest) :=
        if_neg (Ne.symm h.1)
      rw [List.cons_append, hstep]
      cases name with
      | nil => simp
      | cons d name =>
          rw [Bool.and_eq_true, beq_iff_eq, ih h.2]
          constructor
          · intro hmatch
            obtain ⟨hc, back, hname, hback⟩ := hmatch
            exact ⟨back, by rw [hc, hname, List.cons_append], hback⟩
          · intro hmatch
            obtain ⟨back, hname, hback⟩ := hmatch
            rw [List.cons_append, List.cons.injEq] at hname
            exact ⟨hname.1.symm, back, hname.2, hback⟩

/-!
## The text before a separator
-/

theorem before_spec (sep text : Name) :
    before sep text = text ∨ exists later, text = before sep text ++ sep ++ later := by
  induction text with
  | nil => exact Or.inl rfl
  | cons c text ih =>
      rw [before]
      by_cases hsep : sep <+: c :: text
      · rw [if_pos hsep]
        obtain ⟨later, hlater⟩ := hsep
        exact Or.inr ⟨later, hlater.symm⟩
      · rw [if_neg hsep]
        cases ih with
        | inl ih =>
            left
            rw [ih]
        | inr ih =>
            obtain ⟨later, hlater⟩ := ih
            right
            refine ⟨later, ?_⟩
            conv_lhs => rw [hlater]
            rfl

end PosixPath
end Dev
end Ostia

import Mathlib.Tactic.IntervalCases
import Ostia.Topology.Layout

/-!
# The printer of written documents

Documents are written with an indentation of two blanks, one member or item on a line,
and a line feed at the end.  Control characters, quotes and backslashes are escaped.
-/

namespace Ostia
namespace Topology
namespace Pretty

def hexChar (n : Nat) : Char := "0123456789abcdef".toList.getD n '0'

def escapeChar (c : Char) : List Char :=
  if c = '"' then ['\\', '"']
  else if c = '\\' then ['\\', '\\']
  else if c = '\x08' then ['\\', 'b']
  else if c = '\x0c' then ['\\', 'f']
  else if c = '\n' then ['\\', 'n']
  else if c = '\r' then ['\\', 'r']
  else if c = '\t' then ['\\', 't']
  else if c.toNat < 0x20 then
    ['\\', 'u', '0', '0', hexChar (c.toNat / 16), hexChar (c.toNat % 16)]
  else [c]

/-- Read one character of a string; nothing at its end. -/
def readChar : List Char -> Option (Char × List Char)
  | '\\' :: 'b' :: r => some ('\x08', r)
  | '\\' :: 'f' :: r => some ('\x0c', r)
  | '\\' :: 'n' :: r => some ('\n', r)
  | '\\' :: 'r' :: r => some ('\r', r)
  | '\\' :: 't' :: r => some ('\t', r)
  | '\\' :: 'u' :: '0' :: '0' :: a :: b :: r =>
      some (Char.ofNat ("0123456789abcdef".toList.idxOf a * 16 +
        "0123456789abcdef".toList.idxOf b), r)
  | '\\' :: c :: r => some (c, r)
  | '"' :: _ => none
  | c :: r => some (c, r)
  | [] => none

theorem readChar_escapeChar (c : Char) (r : List Char) :
    readChar (escapeChar c ++ r) = some (c, r) := by
  unfold escapeChar
  split_ifs with h0 h1 h2 h3 h4 h5 h6 h7
  · rw [h0]
    rfl
  · rw [h1]
    rfl
  · rw [h2]
    rfl
  · rw [h3]
    rfl
  · rw [h4]
    rfl
  · rw [h5]
    rfl
  · rw [h6]
    rfl
  · have hc : c = Char.ofNat c.toNat := (Char.ofNat_toNat c).symm
    generalize c.toNat = n at hc h7
    subst hc
    interval_cases n
    all_goals rfl
  · unfold readChar
    split
    all_goals first
      | (rename_i heq; injection heq with hc _; exact absurd hc h1)
      | (rename_i heq; injection heq with hc _; exact absurd hc h0)
      | skip
    · rename_i heq
      injection heq with hc hr
      rw [hc, ← hr]
      rfl
    · rename_i heq
      cases heq

theorem escapeChar_split {c d : Char} {r r' : List Char}
    (h : escapeChar c ++ r = escapeChar d ++ r') : c = d ∧ r = r' := by
  have hread := congrArg readChar h
  rw [readChar_escapeChar, readChar_escapeChar] at hread
  injection hread with hread
  injection hread with hc hr
  exact ⟨hc, hr⟩

theorem escapeChar_quote {c : Char} {r r' : List Char} : escapeChar c ++ r ≠ '"' :: r' := by
  intro h
  have hread := congrArg readChar h
  rw [readChar_escapeChar] at hread
  cases hread

def newline (d : Nat) : List Char := '\n' :: List.replicate d ' '

theorem newline_blank {d : Nat} {c : Char} (h : c ∈ newline d) : isBlank c = true := by
  rcases List.mem_cons.mp h with rfl | h
  · rfl
  · rw [List.eq_of_mem_replicate h]
    rfl

def layout : Layout where
  escape := escapeChar
  newline := newline
  colon := [' ']
  escape_split := escapeChar_split
  escape_quote := escapeChar_quote
  newline_blank := newline_blank

@[simp] theorem layout_escape (c : Char) : layout.escape c = escapeChar c := rfl
@[simp] theorem layout_newline (d : Nat) : layout.newline d = newline d := rfl
@[simp] theorem layout_colon : layout.colon = [' '] := rfl

/-- The text of a document as it is written. -/
def dump (j : Json) : String := String.ofList (layout.text 0 j ++ ['\n'])

theorem dump_injective : Function.Injective dump := by
  apply layout.dump_injective
  intro c hc
  cases hc
  decide

end Pretty
end Topology
end Ostia

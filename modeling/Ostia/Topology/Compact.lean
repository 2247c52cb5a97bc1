import Ostia.Topology.Layout

/-!
# A compact printer

One line without blanks, as the JSON library prints documents that hold no float
and no control character: strings in quotes with quotes and backslashes escaped.
-/

namespace Ostia
namespace Topology
namespace Compact

def escapeChar (c : Char) : List Char := if c = '"' ∨ c = '\\' then ['\\', c] else [c]

theorem escapeChar_split {c d : Char} {r r' : List Char}
    (h : escapeChar c ++ r = escapeChar d ++ r') : c = d ∧ r = r' := by
  unfold escapeChar at h
  split_ifs at h with hc hd hd
  · simp only [List.cons_append, List.nil_append, List.cons.injEq, true_and] at h
    exact h
  · simp only [List.cons_append, List.nil_append, List.cons.injEq] at h
    exact absurd (Or.inr h.1.symm) hd
  · simp only [List.cons_append, List.nil_append, List.cons.injEq] at h
    exact absurd (Or.inr h.1) hc
  · simp only [List.cons_append, List.nil_append, List.cons.injEq] at h
    exact h

theorem escapeChar_quote {c : Char} {r r' : List Char} : escapeChar c ++ r ≠ '"' :: r' := by
  intro h
  unfold escapeChar at h
  split_ifs at h with hc
  · simp only [List.cons_append, List.cons.injEq] at h
    exact absurd h.1 (by decide)
  · simp only [List.cons_append, List.nil_append, List.cons.injEq] at h
    exact hc (Or.inl h.1)

def layout : Layout where
  escape := escapeChar
  newline _ := []
  colon := []
  escape_split := escapeChar_split
  escape_quote := escapeChar_quote
  newline_blank := fun h => absurd h List.not_mem_nil

/-- The compact text of a document. -/
def dump (j : Json) : String := String.ofList (layout.text 0 j)

theorem dump_injective : Function.Injective dump := by
  intro a b h
  have hends : Layout.Ends [] := fun c hc => by cases hc
  have htext : layout.text 0 a ++ [] = layout.text 0 b ++ [] :=
    congrArg (· ++ []) (String.ofList_injective h)
  exact layout.dump_injective hends (congrArg String.ofList htext)

end Compact
end Topology
end Ostia

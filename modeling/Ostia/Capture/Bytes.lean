import Mathlib.Data.List.DropRight
import Ostia.Foundation.Deciding

/-!
# Byte strings

Texts of the capture tool are strings of bytes, classified as in the C locale.
-/

namespace Ostia
namespace Capture

abbrev Bytes := List UInt8

/-- The bytes of an ASCII text. -/
def ascii (s : String) : Bytes := s.toList.map Char.toUInt8

namespace Bytes

def isUpper (c : UInt8) : Bool := 'A'.toUInt8 ≤ c && c ≤ 'Z'.toUInt8

def isLower (c : UInt8) : Bool := 'a'.toUInt8 ≤ c && c ≤ 'z'.toUInt8

def isDigit (c : UInt8) : Bool := '0'.toUInt8 ≤ c && c ≤ '9'.toUInt8

def isAlnum (c : UInt8) : Bool := isUpper c || isLower c || isDigit c

/-- The value of a hexadecimal digit. -/
def hexDigit? (c : UInt8) : Option UInt8 :=
  if isDigit c then some (c - '0'.toUInt8)
  else if 'a'.toUInt8 ≤ c && c ≤ 'f'.toUInt8 then some (c - 'a'.toUInt8 + 10)
  else if 'A'.toUInt8 ≤ c && c ≤ 'F'.toUInt8 then some (c - 'A'.toUInt8 + 10)
  else none

def isHexDigit (c : UInt8) : Bool := (hexDigit? c).isSome

def lower (c : UInt8) : UInt8 := if isUpper c then c + 32 else c

def isSeparator (c : UInt8) : Bool := (ascii ":-._ ").contains c

def isTokenChar (c : UInt8) : Bool := isAlnum c || (ascii "._-").contains c

def lowered (text : Bytes) : Bytes := text.map lower

def normalisedHex (text : Bytes) : Bytes :=
  (text.filter fun c => !isSeparator c).map lower

def isBlank (c : UInt8) : Bool := (ascii " \t\r\n\x00").contains c

def trimmed (text : Bytes) : Bytes := (text.dropWhile isBlank).rdropWhile isBlank

def allTokenChars (text : Bytes) : Bool := text.all isTokenChar

/-- Where some bytes are found in a text, from an offset on. -/
def find (text bytes : Bytes) (start : Nat) : Option Nat :=
  (List.range' start (text.length - start)).find? fun k => bytes.isPrefixOf (text.drop k)

/-- A property of all bytes is checked byte by byte. -/
theorem forall_byte {P : UInt8 -> Prop} (h : forall n : Fin 256, P (UInt8.ofNat n.val))
    (c : UInt8) : P c := by
  have hc := h ⟨c.toNat, c.toNat_lt⟩
  simpa using hc

theorem lower_lower (c : UInt8) : lower (lower c) = lower c := by
  revert c
  apply forall_byte
  decide +kernel

theorem isTokenChar_lower (c : UInt8) : isTokenChar (lower c) = isTokenChar c := by
  revert c
  apply forall_byte
  decide +kernel

theorem isSeparator_lower (c : UInt8) : isSeparator (lower c) = isSeparator c := by
  revert c
  apply forall_byte
  decide +kernel

theorem lowered_lowered (text : Bytes) : lowered (lowered text) = lowered text := by
  unfold lowered
  rw [List.map_map]
  refine List.map_congr_left ?_
  intro c _
  exact lower_lower c

theorem lowered_normalisedHex (text : Bytes) :
    lowered (normalisedHex text) = normalisedHex text := lowered_lowered _

theorem drop_eq_cons {text : Bytes} {i : Nat} {c : UInt8} (h : text[i]? = some c) :
    text.drop i = c :: text.drop (i + 1) := by
  obtain ⟨hi, rfl⟩ := List.getElem?_eq_some_iff.mp h
  exact List.drop_eq_getElem_cons hi

theorem find_bounds {text bytes : Bytes} {start k : Nat} (hne : bytes ≠ [])
    (h : find text bytes start = some k) : start ≤ k ∧ k + bytes.length ≤ text.length := by
  unfold find at h
  have hmem := List.mem_of_find?_eq_some h
  rw [List.mem_range'_1] at hmem
  have hfound : bytes.isPrefixOf (text.drop k) = true := by
    simpa only using List.find?_some h
  have hlength := (List.isPrefixOf_iff_prefix.mp hfound).length_le
  rw [List.length_drop] at hlength
  have hpos := List.length_pos_of_ne_nil hne
  omega

theorem isPrefixOf_drop_iff {text : Bytes} {c : UInt8} {k : Nat} :
    [c].isPrefixOf (text.drop k) = true <-> text[k]? = some c := by
  cases hk : text[k]? with
  | none =>
      rw [List.drop_eq_nil_of_le (List.getElem?_eq_none_iff.mp hk)]
      constructor
      · intro h
        cases h
      · intro h
        cases h
  | some d =>
      rw [drop_eq_cons hk, List.isPrefixOf_cons_cons, List.isPrefixOf_nil_left, Bool.and_true,
        beq_iff_eq, Option.some_inj]
      exact eq_comm

theorem find_byte_iff {text : Bytes} {c : UInt8} {start k : Nat} :
    find text [c] start = some k <->
      start ≤ k ∧ text[k]? = some c ∧ forall j, start ≤ j -> j < k -> text[j]? ≠ some c := by
  unfold find
  rw [List.find?_range'_eq_some, isPrefixOf_drop_iff, List.mem_range'_1]
  constructor
  · intro h
    refine ⟨h.2.1.1, h.1, ?_⟩
    intro j hstart hj hc
    have hnot := h.2.2 j hstart hj
    rw [isPrefixOf_drop_iff.mpr hc] at hnot
    cases hnot
  · intro h
    obtain ⟨hk, _⟩ := List.getElem?_eq_some_iff.mp h.2.1
    refine ⟨h.2.1, ⟨h.1, by omega⟩, ?_⟩
    intro j hstart hj
    rw [Bool.not_eq_true', Bool.eq_false_iff]
    intro hstands
    exact h.2.2 j hstart hj (isPrefixOf_drop_iff.mp hstands)

/-- A byte is found where it first stands, and cuts the text there. -/
theorem find_cut {text mid rest : Bytes} {c : UInt8} {start : Nat}
    (hdrop : text.drop start = mid ++ c :: rest) (h : c ∉ mid) :
    find text [c] start = some (start + mid.length) ∧
      (text.drop start).take mid.length = mid ∧
      text.drop (start + mid.length + 1) = rest := by
  have hget : forall j, text[start + j]? = (mid ++ c :: rest)[j]? := by
    intro j
    rw [<- hdrop, List.getElem?_drop]
  constructor
  · rw [find_byte_iff]
    refine ⟨Nat.le_add_right _ _, ?_, ?_⟩
    · rw [hget, List.getElem?_append_right le_rfl, Nat.sub_self]
      rfl
    · intro j hstart hj hc
      obtain ⟨i, rfl⟩ := Nat.exists_eq_add_of_le hstart
      rw [hget, List.getElem?_append_left (by omega)] at hc
      exact h (List.mem_of_getElem? hc)
  · rw [Nat.add_assoc, <- List.drop_drop, hdrop]
    constructor
    · exact List.take_left
    · rw [<- List.drop_drop, List.drop_left]
      rfl

/-- Where a byte is found, the text is cut in two. -/
theorem cut_of_find {text : Bytes} {c : UInt8} {start k : Nat}
    (h : find text [c] start = some k) :
    text.drop start = (text.drop start).take (k - start) ++ c :: text.drop (k + 1) := by
  obtain ⟨hstart, hc, _⟩ := find_byte_iff.mp h
  have hrest : (text.drop start).drop (k - start) = c :: text.drop (k + 1) := by
    rw [List.drop_drop, Nat.add_sub_cancel' hstart, drop_eq_cons hc]
  rw [<- hrest, List.take_append_drop]

end Bytes
end Capture
end Ostia

import Mathlib.Data.Nat.Digits.Lemmas
import Ostia.Capture.Bytes

/-!
# Hexadecimal numbers

Numbers as they are printed with a least width, and as they are read from all digits of a text.
-/

namespace Ostia
namespace Capture
namespace Hex

open Bytes

/-- The lower case digit of a number below sixteen. -/
def digit (d : Nat) : UInt8 := (ascii "0123456789abcdef").getD d 0

/-- A number in lower case digits, with zeros in front up to a width. -/
def padded (width n : Nat) : Bytes :=
  let ds := Nat.digits 16 n
  List.replicate (width - ds.length) '0'.toUInt8 ++ (ds.map digit).reverse

/-- The number that hexadecimal digits denote. -/
def value (text : Bytes) : Nat :=
  text.foldl (fun v c => 16 * v + ((hexDigit? c).getD 0).toNat) 0

/-- Read a number of 32 bits off the front of a text. -/
def fromChars (text : Bytes) : Option (Nat × Bytes) :=
  let ds := text.takeWhile isHexDigit
  if ds = [] ∨ 2 ^ 32 ≤ value ds then none else some (value ds, text.dropWhile isHexDigit)

/-- All bytes are hexadecimal digits. -/
def AllHex (text : Bytes) : Prop := forall c, c ∈ text -> isHexDigit c = true

/-!
## Digits
-/

theorem digit_spec {d : Nat} (hd : d < 16) :
    digit d ∈ ascii "0123456789abcdef" ∧ isHexDigit (digit d) = true ∧
      ((hexDigit? (digit d)).getD 0).toNat = d := by
  have h : forall d : Fin 16, digit d.val ∈ ascii "0123456789abcdef" ∧
      isHexDigit (digit d.val) = true ∧ ((hexDigit? (digit d.val)).getD 0).toNat = d.val := by
    decide
  exact h ⟨d, hd⟩

theorem hexDigit_lt (c : UInt8) : ((hexDigit? c).getD 0).toNat < 16 := by
  revert c
  apply forall_byte
  decide +kernel

theorem isHexDigit_of_lower {c : UInt8} (h : c ∈ ascii "0123456789abcdef") :
    isHexDigit c = true := by
  revert c
  decide

/-!
## Values
-/

theorem value_concat (text : Bytes) (c : UInt8) :
    value (text ++ [c]) = 16 * value text + ((hexDigit? c).getD 0).toNat := by
  unfold value
  rw [List.foldl_append]
  rfl

theorem value_lt (text : Bytes) : value text < 16 ^ text.length := by
  induction text using List.reverseRecOn with
  | nil => exact Nat.one_pos
  | append_singleton text c ih =>
      have hdigit := hexDigit_lt c
      rw [value_concat, List.length_append, List.length_singleton, Nat.pow_succ]
      omega

theorem value_digits {ds : List Nat} (h : forall d, d ∈ ds -> d < 16) :
    value (ds.map digit).reverse = Nat.ofDigits 16 ds := by
  induction ds with
  | nil => rfl
  | cons d ds ih =>
      rw [List.forall_mem_cons] at h
      rw [List.map_cons, List.reverse_cons, value_concat, ih h.2, (digit_spec h.1).2.2,
        Nat.ofDigits_cons, Nat.add_comm]

theorem value_zeros (k : Nat) (text : Bytes) :
    value (List.replicate k '0'.toUInt8 ++ text) = value text := by
  induction k with
  | zero => rfl
  | succ k ih =>
      rw [List.replicate_succ, List.cons_append, <- ih]
      rfl

theorem value_padded (width n : Nat) : value (padded width n) = n := by
  unfold padded
  rw [value_zeros, value_digits fun d hd => Nat.digits_lt_base (by decide) hd,
    Nat.ofDigits_digits]

theorem padded_lower (width n : Nat) :
    forall c, c ∈ padded width n -> c ∈ ascii "0123456789abcdef" := by
  intro c hc
  unfold padded at hc
  cases List.mem_append.mp hc with
  | inl hc =>
      rw [List.eq_of_mem_replicate hc]
      decide
  | inr hc =>
      rw [List.mem_reverse, List.mem_map] at hc
      obtain ⟨d, hd, rfl⟩ := hc
      exact (digit_spec (Nat.digits_lt_base (by decide) hd)).1

theorem allHex_padded (width n : Nat) : AllHex (padded width n) :=
  fun c hc => isHexDigit_of_lower (padded_lower width n c hc)

theorem le_length_padded (width n : Nat) : width ≤ (padded width n).length := by
  unfold padded
  rw [List.length_append, List.length_replicate, List.length_reverse, List.length_map]
  omega

theorem length_padded {width n k : Nat} (hk : width ≤ k) (hn : n < 16 ^ k) :
    (padded width n).length ≤ k := by
  have hdigits : (Nat.digits 16 n).length ≤ k :=
    (Nat.digits_length_le_iff (by decide) n).mpr hn
  unfold padded
  rw [List.length_append, List.length_replicate, List.length_reverse, List.length_map]
  omega

theorem fromChars_of_allHex {text : Bytes} (hne : text ≠ []) (hhex : AllHex text)
    (hlength : text.length ≤ 8) : fromChars text = some (value text, []) := by
  have htake : text.takeWhile isHexDigit = text := List.takeWhile_eq_self_iff.mpr hhex
  have hdrop : text.dropWhile isHexDigit = [] := List.dropWhile_eq_nil_iff.mpr hhex
  have hlt : value text < 2 ^ 32 :=
    (value_lt text).trans_le (Nat.pow_le_pow_right (by decide) hlength)
  unfold fromChars
  rw [htake, hdrop, if_neg]
  intro hbad
  cases hbad with
  | inl hnil => exact hne hnil
  | inr hbig => exact hbig.not_gt hlt

theorem allHex_of_fromChars {text : Bytes} {v : Nat} (h : fromChars text = some (v, [])) :
    AllHex text ∧ v = value text := by
  unfold fromChars at h
  simp only at h
  split_ifs at h
  rw [Option.some_inj, Prod.mk.injEq] at h
  have hhex := List.dropWhile_eq_nil_iff.mp h.2
  constructor
  · exact hhex
  · rw [<- h.1, List.takeWhile_eq_self_iff.mpr hhex]

end Hex
end Capture
end Ostia

import Ostia.Capture.Bytes

/-!
# Decimal numbers

Numbers as they are printed, and the number in front of a text.
-/

namespace Ostia
namespace Capture

def toText {A : Type} [ToString A] (n : A) : Bytes := ascii (toString n)

namespace Decimal

open Bytes

/-- Blanks of the C locale. -/
def isSpace (c : UInt8) : Bool := c = 0x20 || (9 ≤ c && c ≤ 13)

def naturalOf (digits : Bytes) : Nat := digits.foldl (fun v c => 10 * v + (c.toNat - 48)) 0

/-- The number in front of a text, after blanks and a sign. -/
def atoi (text : Bytes) : Int :=
  match text.dropWhile isSpace with
  | [] => 0
  | c :: rest =>
      if c = '-'.toUInt8 then -(naturalOf (rest.takeWhile isDigit) : Int)
      else if c = '+'.toUInt8 then naturalOf (rest.takeWhile isDigit)
      else naturalOf ((c :: rest).takeWhile isDigit)

/-!
## What is printed is read
-/

theorem toText_nat (n : Nat) : toText n = (Nat.toDigits 10 n).map Char.toUInt8 := by
  unfold toText ascii
  rw [Nat.toString_eq_ofList_toDigits, String.toList_ofList]

theorem toText_negSucc (m : Nat) :
    toText (Int.negSucc m) = '-'.toUInt8 :: toText (m + 1) := by
  have hsign : toString (Int.negSucc m) = "-" ++ toString (m + 1) := rfl
  unfold toText ascii
  rw [hsign, String.toList_append, List.map_append]
  rfl

theorem toNat_toUInt8 {c : Char} (h : c.isDigit = true) : c.toUInt8.toNat = c.toNat := by
  have hbound : c.toNat ≤ 57 := by
    have hval := h
    unfold Char.isDigit at hval
    rw [Bool.and_eq_true, decide_eq_true_iff, decide_eq_true_iff] at hval
    exact UInt32.le_iff_toNat_le.mp hval.2
  show c.toNat % 2 ^ 8 = c.toNat
  omega

theorem isDigit_toUInt8 {c : Char} (h : c.isDigit = true) : isDigit c.toUInt8 = true := by
  have hnat := toNat_toUInt8 h
  unfold Char.isDigit at h
  rw [Bool.and_eq_true, decide_eq_true_iff, decide_eq_true_iff] at h
  unfold isDigit
  rw [Bool.and_eq_true, decide_eq_true_iff, decide_eq_true_iff, UInt8.le_iff_toNat_le,
    UInt8.le_iff_toNat_le, hnat]
  exact ⟨UInt32.le_iff_toNat_le.mp h.1, UInt32.le_iff_toNat_le.mp h.2⟩

theorem isDigit_of_mem {n : Nat} {c : UInt8} (h : c ∈ toText n) : isDigit c = true := by
  rw [toText_nat, List.mem_map] at h
  obtain ⟨d, hd, rfl⟩ := h
  exact isDigit_toUInt8 (Nat.isDigit_of_mem_toDigits (by decide) (by decide) hd)

theorem naturalOf_toText (n : Nat) : naturalOf (toText n) = n := by
  have hfold : forall (cs : List Char) (v : Nat), (forall c, c ∈ cs -> c.isDigit = true) ->
      (cs.map Char.toUInt8).foldl (fun v c => 10 * v + (c.toNat - 48)) v =
        Nat.ofDigitChars 10 cs v := by
    intro cs v hcs
    rw [Nat.ofDigitChars_eq_foldl]
    induction cs generalizing v with
    | nil => rfl
    | cons c rest ih =>
        rw [List.forall_mem_cons] at hcs
        rw [List.map_cons, List.foldl_cons, List.foldl_cons, toNat_toUInt8 hcs.1]
        exact ih _ hcs.2
  unfold naturalOf
  rw [toText_nat, hfold _ _ fun c hc => Nat.isDigit_of_mem_toDigits (by decide) (by decide) hc]
  exact Nat.ofDigitChars_ten_toDigits

theorem toText_ne_nil (n : Nat) : toText n ≠ [] := by
  rw [toText_nat]
  intro h
  exact Nat.toDigits_ne_nil (List.map_eq_nil_iff.mp h)

theorem takeWhile_toText (n : Nat) : (toText n).takeWhile isDigit = toText n := by
  rw [List.takeWhile_eq_self_iff]
  intro c hc
  exact isDigit_of_mem hc

/-- A digit is neither a blank nor a sign. -/
theorem digit_spec (c : UInt8) (h : isDigit c = true) :
    isSpace c = false ∧ c ≠ '-'.toUInt8 ∧ c ≠ '+'.toUInt8 := by
  revert h
  revert c
  apply forall_byte
  decide +kernel

theorem atoi_toText (n : Int) : atoi (toText n) = n := by
  cases n with
  | ofNat m =>
      have htext : toText (Int.ofNat m) = toText m := rfl
      have htake := takeWhile_toText m
      have hvalue := naturalOf_toText m
      rw [htext]
      cases hdigits : toText m with
      | nil => exact absurd hdigits (toText_ne_nil m)
      | cons c rest =>
          have hspec := digit_spec c (isDigit_of_mem (hdigits ▸ List.mem_cons_self))
          rw [hdigits] at htake hvalue
          unfold atoi
          rw [List.dropWhile_cons_of_neg (ne_true_of_eq_false hspec.1)]
          simp only
          rw [if_neg hspec.2.1, if_neg hspec.2.2, htake, hvalue]
          rfl
  | negSucc m =>
      unfold atoi
      rw [toText_negSucc, List.dropWhile_cons_of_neg (by decide)]
      simp only
      rw [if_pos trivial, takeWhile_toText, naturalOf_toText]
      rfl

end Decimal
end Capture
end Ostia

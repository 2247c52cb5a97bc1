import Mathlib.Data.Nat.Log
import Mathlib.Tactic.NormNum

/-!
# Integers as doubles

An integer rounded to the 53 bits of a double.  Integers of less than 54 bits are left as
they are and compare with a double as they do with each other.
-/

namespace Ostia
namespace Foundation

/-- An integer as a double: 53 bits, rounded to the nearest, halves to even. -/
def roundNat (n : Nat) : Nat :=
  if n < 2 ^ 53 then n
  else
    let unit := 2 ^ (Nat.log2 n - 52)
    let q := n / unit
    let r := n % unit
    if unit < 2 * r ∨ (2 * r = unit ∧ q % 2 = 1) then (q + 1) * unit else q * unit

def roundInt (n : Int) : Int := if 0 ≤ n then roundNat n.toNat else -(roundNat (-n).toNat)

theorem roundNat_of_lt {n : Nat} (h : n < 2 ^ 53) : roundNat n = n := by
  unfold roundNat
  rw [if_pos h]

/-- A number of 54 bits or more stays one. -/
theorem le_roundNat {n : Nat} (h : 2 ^ 53 ≤ n) : 2 ^ 53 ≤ roundNat n := by
  have hlog : 53 ≤ Nat.log2 n := (Nat.le_log2 (by omega)).mpr h
  have hself : 2 ^ Nat.log2 n ≤ n := Nat.log2_self_le (by omega)
  have hsplit : 2 ^ Nat.log2 n = 2 ^ 52 * 2 ^ (Nat.log2 n - 52) := by
    rw [← Nat.pow_add]
    congr 1
    omega
  have htwo : 2 ≤ 2 ^ (Nat.log2 n - 52) := by
    calc
      2 = 2 ^ 1 := rfl
      _ ≤ 2 ^ (Nat.log2 n - 52) := Nat.pow_le_pow_right (by decide) (by omega)
  have hquot : 2 ^ 52 ≤ n / 2 ^ (Nat.log2 n - 52) := by
    rw [Nat.le_div_iff_mul_le (by omega), ← hsplit]
    exact hself
  unfold roundNat
  rw [if_neg (by omega)]
  simp only
  have hmul : 2 ^ 53 ≤ n / 2 ^ (Nat.log2 n - 52) * 2 ^ (Nat.log2 n - 52) :=
    calc
      2 ^ 53 = 2 ^ 52 * 2 := by norm_num
      _ ≤ n / 2 ^ (Nat.log2 n - 52) * 2 ^ (Nat.log2 n - 52) := Nat.mul_le_mul hquot htwo
  split_ifs
  · exact le_trans hmul (Nat.mul_le_mul_right _ (Nat.le_succ _))
  · exact hmul

/-- The bounds that a double compares exactly. -/
def Small (m : Int) : Prop := m.natAbs < 2 ^ 53

theorem roundInt_of_small {m : Int} (h : Small m) : roundInt m = m := by
  unfold Small at h
  unfold roundInt
  split_ifs with hm
  · rw [roundNat_of_lt (by omega)]
    omega
  · rw [roundNat_of_lt (by omega)]
    omega

/-- The comparison of the doubles is that of the integers. -/
theorem roundInt_lt_iff {n m : Int} (h : Small m) : roundInt n < m <-> n < m := by
  by_cases hn : Small n
  · rw [roundInt_of_small hn]
  · unfold Small at h hn
    unfold roundInt
    split_ifs with hpos
    · have hround := @le_roundNat n.toNat (by omega)
      omega
    · have hround := @le_roundNat (-n).toNat (by omega)
      omega

theorem lt_roundInt_iff {n m : Int} (h : Small m) : m < roundInt n <-> m < n := by
  by_cases hn : Small n
  · rw [roundInt_of_small hn]
  · unfold Small at h hn
    unfold roundInt
    split_ifs with hpos
    · have hround := @le_roundNat n.toNat (by omega)
      omega
    · have hround := @le_roundNat (-n).toNat (by omega)
      omega

/-!
## Signs
-/

theorem roundInt_nonpos {n : Int} (h : n ≤ 0) : roundInt n ≤ 0 := by
  rcases eq_or_lt_of_le h with h | h
  · rw [h]
    decide
  · unfold roundInt
    rw [if_neg (not_le.mpr h)]
    exact Int.neg_nonpos_of_nonneg (Int.natCast_nonneg _)

end Foundation
end Ostia

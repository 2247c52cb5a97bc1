import Mathlib.Algebra.Order.Floor.Div
import Mathlib.Data.Int.Log
import Mathlib.Data.Rat.Floor
import Mathlib.Tactic.FieldSimp
import Mathlib.Tactic.Linarith
import Mathlib.Tactic.NormNum

/-!
# Rationals as doubles

A rational rounded to the nearest double, halves to even.  The exponent of the unit in the last
place is at least that of the subnormal numbers; from a bound on there is no finite double.
-/

namespace Ostia
namespace Foundation
namespace Binary64

/-- The nearest integer of a nonnegative rational, halves to even. -/
def roundHalfEven (q : ℚ) : Nat :=
  let n := ⌊q⌋₊
  if 1 / 2 < q - n ∨ (q - n = 1 / 2 ∧ n % 2 = 1) then n + 1 else n

/-- The exponent of the unit in the last place of a positive rational. -/
def exponent (q : ℚ) : Int := max (-1074) (Int.log 2 q - 52)

/-- The magnitude of a rational on the grid of the doubles. -/
def magnitude (q : ℚ) : ℚ := roundHalfEven (|q| / 2 ^ exponent |q|) * 2 ^ exponent |q|

/-- The nearest double; none when it would not be finite. -/
def round (q : ℚ) : Option ℚ :=
  if q = 0 then some 0
  else if 2 ^ 1024 ≤ magnitude q then none
  else some (if q < 0 then -magnitude q else magnitude q)

/-- From here on a magnitude has no double. -/
def limit : Nat := 2 ^ 1024 - 2 ^ 970

/-!
## Overflow
-/

theorem floor_le_roundHalfEven (q : ℚ) : ⌊q⌋₊ ≤ roundHalfEven q := by
  unfold roundHalfEven
  simp only
  split_ifs
  · exact Nat.le_succ _
  · exact le_refl _

theorem roundHalfEven_le {q : ℚ} {n : Nat} (h : q < n) : roundHalfEven q ≤ n := by
  rcases lt_or_ge q 0 with hq | hq
  · have hfloor : ⌊q⌋₊ = 0 := Nat.floor_of_nonpos hq.le
    unfold roundHalfEven
    simp only [hfloor]
    rw [if_neg]
    · exact Nat.zero_le n
    · intro h
      rcases h with h | ⟨h, h0⟩
      · push_cast at h
        linarith
      · cases h0
  · have hfloor := (Nat.floor_lt hq).mpr h
    unfold roundHalfEven
    simp only
    split_ifs
    · exact hfloor
    · exact hfloor.le

/-- An even number is reached from half below it on. -/
theorem le_roundHalfEven_iff {q : ℚ} {n : Nat} (hq : 0 ≤ q) (h : q < n) (hn : n % 2 = 0) :
    n ≤ roundHalfEven q <-> (n : ℚ) - 1 / 2 ≤ q := by
  have hlow := Nat.floor_le hq
  have hhigh := Nat.lt_floor_add_one q
  have hfloor := (Nat.floor_lt hq).mpr h
  unfold roundHalfEven
  simp only
  constructor
  · intro hle
    split_ifs at hle with hup
    · have heq : n = ⌊q⌋₊ + 1 := by omega
      have hcast : (n : ℚ) = ⌊q⌋₊ + 1 := by
        rw [heq]
        push_cast
        rfl
      rcases hup with hup | ⟨hup, _⟩
      · linarith
      · linarith
    · omega
  · intro hle
    have heq : n = ⌊q⌋₊ + 1 := by
      by_contra hne
      have hsucc : ⌊q⌋₊ + 1 + 1 ≤ n := by omega
      have hcast : (⌊q⌋₊ : ℚ) + 1 + 1 ≤ n := by exact_mod_cast hsucc
      linarith
    have hcast : (n : ℚ) = ⌊q⌋₊ + 1 := by
      rw [heq]
      push_cast
      rfl
    rw [if_pos]
    · exact heq.le
    · rcases lt_or_eq_of_le (show (1 : ℚ) / 2 ≤ q - ⌊q⌋₊ by linarith) with hlt | heq'
      · exact Or.inl hlt
      · exact Or.inr ⟨heq'.symm, by omega⟩

/-- The magnitude in units of the last place has at most 53 bits. -/
theorem scaled_lt {q : ℚ} : |q| / 2 ^ exponent |q| < (2 ^ 53 : Nat) := by
  have hhigh : |q| < (2 : ℚ) ^ (Int.log 2 |q| + 1) := by
    exact_mod_cast Int.lt_zpow_succ_log_self (b := 2) (by decide) |q|
  rw [div_lt_iff₀ (zpow_pos (by norm_num) _)]
  calc
    |q| < (2 : ℚ) ^ (Int.log 2 |q| + 1) := hhigh
    _ ≤ (2 : ℚ) ^ (53 + exponent |q|) := by
      apply zpow_le_zpow_right₀ (by norm_num)
      have := le_max_right (-1074) (Int.log 2 |q| - 52)
      unfold exponent
      omega
    _ = ((2 ^ 53 : Nat) : ℚ) * 2 ^ exponent |q| := by
      rw [zpow_add₀ (by norm_num)]
      norm_num

theorem limit_eq : (limit : ℚ) = (((2 ^ 53 : Nat) : ℚ) - 1 / 2) * 2 ^ (971 : Int) := by
  have hlimit : limit = (2 ^ 54 - 1) * 2 ^ 970 := by
    rw [limit, Nat.sub_mul, one_mul, ← pow_add]
  rw [hlimit, show (971 : Int) = 1 + (970 : Nat) by norm_num, zpow_add₀ (by norm_num),
    zpow_natCast, Nat.cast_mul, Nat.cast_pow, Nat.cast_ofNat]
  generalize (2 : ℚ) ^ 970 = unit
  push_cast
  ring

theorem pow_split : (2 : ℚ) ^ 1024 = ((2 ^ 53 : Nat) : ℚ) * 2 ^ (971 : Int) := by
  rw [show (971 : Int) = (971 : Nat) by norm_num, zpow_natCast, Nat.cast_pow, Nat.cast_ofNat,
    ← pow_add]

theorem limit_pos : (0 : ℚ) < limit := by
  rw [limit_eq]
  exact mul_pos (by norm_num) (zpow_pos (by norm_num) _)

theorem limit_le : (limit : ℚ) ≤ 2 ^ 1024 := by
  rw [limit_eq, pow_split]
  exact mul_le_mul_of_nonneg_right (by norm_num) (zpow_nonneg (by norm_num) _)

/-- A magnitude that is not subnormal keeps its exponent. -/
theorem le_magnitude {q : ℚ} (hq : q ≠ 0) (h : -1022 ≤ Int.log 2 |q|) :
    (2 : ℚ) ^ Int.log 2 |q| ≤ magnitude q := by
  have hpos : 0 < |q| := abs_pos.mpr hq
  have hlow : (2 : ℚ) ^ Int.log 2 |q| ≤ |q| := by
    exact_mod_cast Int.zpow_log_le_self (b := 2) (by decide) hpos
  have hunit : (0 : ℚ) < 2 ^ exponent |q| := zpow_pos (by norm_num) _
  have hexp : exponent |q| = Int.log 2 |q| - 52 := max_eq_right (by omega)
  have hsplit : (2 : ℚ) ^ Int.log 2 |q| = ((2 ^ 52 : Nat) : ℚ) * 2 ^ exponent |q| := by
    rw [hexp, show Int.log 2 |q| = 52 + (Int.log 2 |q| - 52) by ring, zpow_add₀ (by norm_num)]
    norm_num
  have hround : ((2 ^ 52 : Nat) : ℚ) ≤ roundHalfEven (|q| / 2 ^ exponent |q|) := by
    have hfloor : 2 ^ 52 ≤ ⌊|q| / 2 ^ exponent |q|⌋₊ := by
      rw [Nat.le_floor_iff (div_nonneg hpos.le hunit.le), le_div_iff₀ hunit, ← hsplit]
      exact hlow
    exact_mod_cast hfloor.trans (floor_le_roundHalfEven _)
  rw [hsplit]
  exact mul_le_mul_of_nonneg_right hround hunit.le

theorem overflow_iff {q : ℚ} (hq : q ≠ 0) : 2 ^ 1024 ≤ magnitude q <-> (limit : ℚ) ≤ |q| := by
  have hpos : 0 < |q| := abs_pos.mpr hq
  have hlow : (2 : ℚ) ^ Int.log 2 |q| ≤ |q| := by
    exact_mod_cast Int.zpow_log_le_self (b := 2) (by decide) hpos
  have hscaled := @scaled_lt q
  have hunit : (0 : ℚ) < 2 ^ exponent |q| := zpow_pos (by norm_num) _
  have hunit' : (0 : ℚ) < 2 ^ (971 : Int) := zpow_pos (by norm_num) _
  rcases lt_trichotomy (Int.log 2 |q|) 1023 with hk | hk | hk
  · -- Both sides are false: the magnitude rounds to at most half the bound.
    have hexp : exponent |q| ≤ 970 := max_le (by decide) (by omega)
    have hround : (roundHalfEven (|q| / 2 ^ exponent |q|) : ℚ) ≤ (2 ^ 53 : Nat) := by
      exact_mod_cast roundHalfEven_le hscaled
    have hhalf : (2 : ℚ) ^ (970 : Int) = 1 / 2 * 2 ^ (971 : Int) := by
      rw [show (971 : Int) = 1 + 970 by norm_num, zpow_add₀ (by norm_num)]
      ring
    have hmag : magnitude q ≤ ((2 ^ 53 : Nat) : ℚ) * 2 ^ (970 : Int) :=
      calc
        magnitude q ≤ ((2 ^ 53 : Nat) : ℚ) * 2 ^ exponent |q| :=
          mul_le_mul_of_nonneg_right hround hunit.le
        _ ≤ ((2 ^ 53 : Nat) : ℚ) * 2 ^ (970 : Int) :=
          mul_le_mul_of_nonneg_left (zpow_le_zpow_right₀ (by norm_num) hexp) (by norm_num)
    have hsmall : |q| < ((2 ^ 53 : Nat) : ℚ) * 2 ^ (970 : Int) := by
      rw [div_lt_iff₀ hunit] at hscaled
      exact lt_of_lt_of_le hscaled
        (mul_le_mul_of_nonneg_left (zpow_le_zpow_right₀ (by norm_num) hexp) (by norm_num))
    rw [hhalf, ← mul_assoc] at hmag hsmall
    rw [pow_split, limit_eq]
    constructor
    · intro h
      have h' := le_of_mul_le_mul_right (h.trans hmag) hunit'
      norm_num at h'
    · intro h
      have h' := lt_of_mul_lt_mul_right (lt_of_le_of_lt h hsmall) hunit'.le
      norm_num at h'
  · -- The bound itself: half a unit below it rounds up.
    have hexp : exponent |q| = 971 := by
      unfold exponent
      rw [hk]
      decide
    have hiff := le_roundHalfEven_iff (div_nonneg hpos.le hunit.le) hscaled (by norm_num)
    unfold magnitude
    rw [hexp] at hiff ⊢
    rw [pow_split, mul_le_mul_iff_left₀ hunit', limit_eq, ← le_div_iff₀ hunit', ← hiff]
    exact Nat.cast_le
  · -- Both sides are true.
    have hpower : (2 : ℚ) ^ (1024 : Int) ≤ 2 ^ Int.log 2 |q| :=
      zpow_le_zpow_right₀ (by norm_num) (by omega)
    have hmag := le_magnitude hq (by omega)
    have hbound : (2 : ℚ) ^ (1024 : Int) = 2 ^ 1024 := by
      rw [show (1024 : Int) = (1024 : Nat) by norm_num, zpow_natCast]
    rw [hbound] at hpower
    exact iff_of_true (hpower.trans hmag) (limit_le.trans (hpower.trans hlow))

/-- A rational has a double exactly below the bound. -/
theorem round_eq_none_iff {q : ℚ} : round q = none <-> (limit : ℚ) ≤ |q| := by
  unfold round
  split_ifs with hq hmag
  · rw [hq, abs_zero]
    constructor
    · intro h
      cases h
    · intro h
      exact absurd h (not_le.mpr limit_pos)
  · exact iff_of_true rfl ((overflow_iff hq).mp hmag)
  · constructor
    · intro h
      cases h
    · intro h
      exact absurd ((overflow_iff hq).mpr h) hmag

/-- A magnitude of at least one does not round to zero. -/
theorem round_ne_zero {q : ℚ} (h : 1 ≤ |q|) : round q ≠ some 0 := by
  have hq : q ≠ 0 := by
    intro h0
    rw [h0, abs_zero] at h
    norm_num at h
  have hlog : 0 ≤ Int.log 2 |q| := by
    have hlog := Int.log_mono_right (b := 2) one_pos h
    rwa [Int.log_one_right] at hlog
  have hmag : 0 < magnitude q :=
    lt_of_lt_of_le (zpow_pos (by norm_num) _) (le_magnitude hq (by omega))
  unfold round
  split_ifs with h0 hover hneg
  · exact absurd h0 hq
  · intro h
    cases h
  · intro h
    have h' := Option.some.inj h
    linarith
  · intro h
    have h' := Option.some.inj h
    linarith

end Binary64
end Foundation
end Ostia

import Mathlib.Analysis.SpecialFunctions.Pow.Real
import Mathlib.Data.Nat.Nth
import Mathlib.Data.Nat.Prime.Defs

/-!
# The hash SHA-256

The digest of a message of bits, after the standard FIPS 180-4.  The constants are what the
standard says they are, the first bits of fractional parts of roots of primes, and not a table.
-/

namespace Ostia
namespace Foundation
namespace Sha256

/-!
## Bits

Bits stand in the order of their weights, the largest first.
-/

def bitsOf (width n : Nat) : List Bool := (List.range width).map fun i => n.testBit (width - 1 - i)

def ofBits (bits : List Bool) : Nat := bits.foldl (fun n b => 2 * n + b.toNat) 0

def byteBits (byte : UInt8) : List Bool := bitsOf 8 byte.toNat

def bytesBits (bytes : List UInt8) : List Bool := bytes.flatMap byteBits

@[simp] theorem length_bitsOf (width n : Nat) : (bitsOf width n).length = width := by
  simp [bitsOf]

@[simp] theorem length_bytesBits (bytes : List UInt8) :
    (bytesBits bytes).length = 8 * bytes.length := by
  unfold bytesBits
  induction bytes with
  | nil => rfl
  | cons byte bytes ih =>
      rw [List.flatMap_cons, List.length_append, ih, byteBits, length_bitsOf, List.length_cons]
      omega

theorem bitsOf_succ (width n : Nat) :
    bitsOf (width + 1) n = bitsOf width (n / 2) ++ [n.testBit 0] := by
  unfold bitsOf
  rw [List.range_succ, List.map_append, List.map_singleton]
  congr 1
  · apply List.map_congr_left
    intro i hi
    have hlt := List.mem_range.mp hi
    rw [Nat.testBit_div_two]
    congr 1
    omega
  · congr 2
    omega

theorem bitsOf_add (width low n : Nat) :
    bitsOf (width + low) n = bitsOf width (n / 2 ^ low) ++ bitsOf low n := by
  induction low generalizing n with
  | zero => simp [bitsOf]
  | succ low ih =>
      rw [← Nat.add_assoc, bitsOf_succ, ih, bitsOf_succ low, List.append_assoc,
        Nat.div_div_eq_div_mul, ← Nat.pow_succ']

theorem bitsOf_mod (width n : Nat) : bitsOf width (n % 2 ^ width) = bitsOf width n := by
  unfold bitsOf
  apply List.map_congr_left
  intro i hi
  have hlt := List.mem_range.mp hi
  rw [Nat.testBit_mod_two_pow]
  simp
  omega

theorem ofBits_snoc (bits : List Bool) (b : Bool) :
    ofBits (bits ++ [b]) = 2 * ofBits bits + b.toNat := by
  unfold ofBits
  rw [List.foldl_append]
  rfl

theorem ofBits_append (xs ys : List Bool) :
    ofBits (xs ++ ys) = ofBits xs * 2 ^ ys.length + ofBits ys := by
  induction ys using List.reverseRecOn with
  | nil => simp [ofBits]
  | append_singleton ys b ih =>
      rw [← List.append_assoc, ofBits_snoc, ofBits_snoc, ih, List.length_append,
        List.length_singleton, Nat.pow_succ]
      ring

theorem ofBits_bitsOf (width n : Nat) : ofBits (bitsOf width n) = n % 2 ^ width := by
  induction width generalizing n with
  | zero =>
      rw [Nat.pow_zero, Nat.mod_one]
      rfl
  | succ width ih =>
      rw [bitsOf_succ, ofBits_snoc, ih, Nat.testBit_zero, Nat.pow_succ', Nat.mod_mul]
      rcases Nat.mod_two_eq_zero_or_one n with h | h
      · rw [h]
        simp
      · rw [h]
        simp
        omega

theorem ofBits_byteBits (byte : UInt8) : ofBits (byteBits byte) = byte.toNat := by
  unfold byteBits
  rw [ofBits_bitsOf]
  exact Nat.mod_eq_of_lt byte.toNat_lt

theorem bytesBits_append (xs ys : List UInt8) :
    bytesBits (xs ++ ys) = bytesBits xs ++ bytesBits ys :=
  List.flatMap_append

theorem bytesBits_drop (n : Nat) : forall bytes : List UInt8,
    bytesBits (bytes.drop n) = (bytesBits bytes).drop (8 * n) := by
  induction n with
  | zero =>
      intro bytes
      rfl
  | succ n ih =>
      intro bytes
      cases bytes with
      | nil => simp [bytesBits]
      | cons byte bytes =>
          have hlength : (byteBits byte).length = 8 := length_bitsOf 8 _
          have hsum : 8 * (n + 1) = (byteBits byte).length + 8 * n := by omega
          rw [List.drop_succ_cons, ih, hsum]
          exact (List.drop_length_add_append _).symm

theorem bytesBits_take (n : Nat) : forall bytes : List UInt8,
    bytesBits (bytes.take n) = (bytesBits bytes).take (8 * n) := by
  induction n with
  | zero =>
      intro bytes
      rfl
  | succ n ih =>
      intro bytes
      cases bytes with
      | nil => simp [bytesBits]
      | cons byte bytes =>
          have hlength : (byteBits byte).length = 8 := length_bitsOf 8 _
          have hsum : 8 * (n + 1) = (byteBits byte).length + 8 * n := by omega
          rw [List.take_succ_cons, hsum]
          show byteBits byte ++ bytesBits (bytes.take n) = _
          rw [ih]
          exact (List.take_length_add_append _).symm

/-!
## The constants
-/

abbrev Word : Type := BitVec 32

/-- The first thirty-two bits of the fractional part of a number. -/
noncomputable def fractionBits (x : Real) : Word := BitVec.ofNat 32 ⌊2 ^ 32 * Int.fract x⌋₊

/-- The constants of the rounds come from the cube roots of the first primes. -/
noncomputable def roundConstant (t : Nat) : Word :=
  fractionBits ((Nat.nth Nat.Prime t : Real) ^ ((3 : Nat) : Real)⁻¹)

/-- The initial hash value comes from the square roots of the first primes. -/
noncomputable def initialWord (i : Nat) : Word :=
  fractionBits ((Nat.nth Nat.Prime i : Real) ^ ((2 : Nat) : Real)⁻¹)

/-- The fraction bits of a root, found between two powers. -/
theorem fractionBits_root {k n whole part : Nat} (hk : k ≠ 0) (hpart : part < 2 ^ 32)
    (hle : (whole * 2 ^ 32 + part) ^ k ≤ n * 2 ^ (32 * k))
    (hlt : n * 2 ^ (32 * k) < (whole * 2 ^ 32 + part + 1) ^ k) :
    fractionBits ((n : Real) ^ (k : Real)⁻¹) = BitVec.ofNat 32 part := by
  have hroot : ((n : Real) ^ (k : Real)⁻¹) ^ k = n := Real.rpow_inv_natCast_pow n.cast_nonneg hk
  have hnonneg : 0 ≤ (n : Real) ^ (k : Real)⁻¹ := Real.rpow_nonneg n.cast_nonneg _
  generalize (n : Real) ^ (k : Real)⁻¹ = x at hroot hnonneg ⊢
  have hscaled : (x * 2 ^ 32) ^ k = n * 2 ^ (32 * k) := by
    rw [mul_pow, hroot, ← pow_mul]
  have hlow : (whole * 2 ^ 32 + part : Real) ≤ x * 2 ^ 32 := by
    rw [← pow_le_pow_iff_left₀ (by positivity) (by positivity) hk, hscaled]
    exact_mod_cast hle
  have hhigh : x * 2 ^ 32 < whole * 2 ^ 32 + part + 1 := by
    rw [← pow_lt_pow_iff_left₀ (by positivity) (by positivity) hk, hscaled]
    exact_mod_cast hlt
  have hpart' : (part : Real) + 1 ≤ 2 ^ 32 := by exact_mod_cast hpart
  have hfloor : ⌊x⌋ = (whole : Int) := by
    rw [Int.floor_eq_iff]
    constructor
    · push_cast
      nlinarith [(part.cast_nonneg : (0 : Real) ≤ part)]
    · push_cast
      nlinarith
  unfold fractionBits
  congr 1
  rw [Nat.floor_eq_iff (by positivity), Int.fract, hfloor]
  push_cast
  constructor
  · linarith
  · linarith

/-- The numbers with a property, in order, are found among the first ones. -/
theorem nth_filter_range {p : Nat -> Prop} [DecidablePred p] (n : Nat) :
    ((List.range n).filter p).length = Nat.count p n ∧
      forall (i : Nat) (h : i < ((List.range n).filter p).length),
        Nat.nth p i = ((List.range n).filter p)[i] := by
  induction n with
  | zero =>
      constructor
      · simp
      · intro i h
        cases h
  | succ n ih =>
      rw [Nat.count_succ, List.range_succ, List.filter_append]
      by_cases hn : p n
      · have hlast : [n].filter p = [n] := by simp [hn]
        simp only [hlast, if_pos hn, List.length_append, List.length_singleton, ih.1]
        refine ⟨trivial, ?_⟩
        intro i hi
        by_cases hlt : i < Nat.count p n
        · rw [List.getElem_append_left (by rw [ih.1]; exact hlt)]
          exact ih.2 i _
        · have heq : i = Nat.count p n := by omega
          subst heq
          rw [List.getElem_append_right (by rw [ih.1]), Nat.nth_count hn]
          simp
      · have hlast : [n].filter p = [] := by simp [hn]
        simp only [hlast, if_neg hn, List.append_nil, Nat.add_zero]
        exact ih

/-- Below a square a number is prime when no other prime below the root divides it. -/
theorem prime_iff_of_lt_sq {p b : Nat} (hp : p < b ^ 2) :
    p.Prime <->
      2 ≤ p ∧ forall d, d ∈ (List.range b).filter (fun d => Nat.Prime d) -> d ∣ p -> d = p := by
  constructor
  · intro h
    refine ⟨h.two_le, ?_⟩
    intro d hd hdvd
    cases h.eq_one_or_self_of_dvd d hdvd with
    | inl hone =>
        rw [hone] at hd
        simp [Nat.not_prime_one] at hd
    | inr hself => exact hself
  · rintro ⟨htwo, hdvd⟩
    by_contra hnot
    have hprime := Nat.minFac_prime (n := p) (by omega)
    have hsq := Nat.minFac_sq_le_self (by omega) hnot
    have hlt : p.minFac < b := lt_of_pow_lt_pow_left₀ 2 (Nat.zero_le b) (Nat.lt_of_le_of_lt hsq hp)
    have hmem : p.minFac ∈ (List.range b).filter fun d => Nat.Prime d := by
      rw [List.mem_filter]
      exact ⟨List.mem_range.mpr hlt, decide_eq_true hprime⟩
    have hfactor := hdvd _ hmem p.minFac_dvd
    rw [hfactor] at hprime
    exact hnot hprime

theorem nth_prime_of_filter {primes : List Nat} {n : Nat}
    (h : (List.range n).filter (fun p => Nat.Prime p) = primes) {i : Nat}
    (hi : i < primes.length) : Nat.nth Nat.Prime i = primes[i] := by
  subst h
  exact (nth_filter_range n).2 i hi

/-!
## The digest
-/

section Functions

variable (x y z : Word)

def ch : Word := (x &&& y) ^^^ (~~~x &&& z)

def maj : Word := (x &&& y) ^^^ (x &&& z) ^^^ (y &&& z)

def bigSigma0 : Word := x.rotateRight 2 ^^^ x.rotateRight 13 ^^^ x.rotateRight 22

def bigSigma1 : Word := x.rotateRight 6 ^^^ x.rotateRight 11 ^^^ x.rotateRight 25

def smallSigma0 : Word := x.rotateRight 7 ^^^ x.rotateRight 18 ^^^ x >>> 3

def smallSigma1 : Word := x.rotateRight 17 ^^^ x.rotateRight 19 ^^^ x >>> 10

end Functions

/-- The smallest number of zeros that brings a message and its mark to 448 bits modulo 512. -/
def zeros (length : Nat) : Nat := (448 + 512 - (length + 1) % 512) % 512

/-- A message with a one, zeros, and its length in 64 bits. -/
def pad (message : List Bool) : List Bool :=
  message ++ true :: List.replicate (zeros message.length) false ++ bitsOf 64 message.length

/-- The i-th part of the given length. -/
def part (length : Nat) (bits : List Bool) (i : Nat) : List Bool :=
  (bits.drop (length * i)).take length

def wordOf (bits : List Bool) : Word := BitVec.ofNat 32 (ofBits bits)

/-- The message schedule of a block. -/
def schedule (block : List Bool) (t : Nat) : Word :=
  if t < 16 then wordOf (part 32 block t)
  else
    smallSigma1 (schedule block (t - 2)) + schedule block (t - 7) +
      smallSigma0 (schedule block (t - 15)) + schedule block (t - 16)
termination_by t
decreasing_by all_goals omega

/-- The eight working variables, or the words of a hash value. -/
structure Variables where
  a : Word
  b : Word
  c : Word
  d : Word
  e : Word
  f : Word
  g : Word
  h : Word

namespace Variables

def words (v : Variables) : List Word := [v.a, v.b, v.c, v.d, v.e, v.f, v.g, v.h]

def add (v v' : Variables) : Variables :=
  ⟨v.a + v'.a, v.b + v'.b, v.c + v'.c, v.d + v'.d, v.e + v'.e, v.f + v'.f, v.g + v'.g,
    v.h + v'.h⟩

theorem add_comm (v v' : Variables) : v.add v' = v'.add v := by
  unfold add
  rw [BitVec.add_comm v.a, BitVec.add_comm v.b, BitVec.add_comm v.c, BitVec.add_comm v.d,
    BitVec.add_comm v.e, BitVec.add_comm v.f, BitVec.add_comm v.g, BitVec.add_comm v.h]

end Variables

noncomputable def round (block : List Bool) (v : Variables) (t : Nat) : Variables :=
  let t1 := v.h + bigSigma1 v.e + ch v.e v.f v.g + roundConstant t + schedule block t
  let t2 := bigSigma0 v.a + maj v.a v.b v.c
  ⟨t1 + t2, v.a, v.b, v.c, v.d + t1, v.e, v.f, v.g⟩

noncomputable def compress (hash : Variables) (block : List Bool) : Variables :=
  ((List.range 64).foldl (round block) hash).add hash

noncomputable def initial : Variables :=
  ⟨initialWord 0, initialWord 1, initialWord 2, initialWord 3, initialWord 4, initialWord 5,
    initialWord 6, initialWord 7⟩

/-- The hash value after the first blocks of a padded message. -/
noncomputable def hashBlocks (padded : List Bool) (count : Nat) : Variables :=
  (List.range count).foldl (fun hash i => compress hash (part 512 padded i)) initial

/-- The digest, 256 bits. -/
noncomputable def digest (message : List Bool) : List Bool :=
  (hashBlocks (pad message) ((pad message).length / 512)).words.flatMap fun w =>
    bitsOf 32 w.toNat

/-- The hexadecimal form of bits: a digit in lower case for four bits each. -/
def hex : List Bool -> List Char
  | b3 :: b2 :: b1 :: b0 :: rest => Nat.digitChar (ofBits [b3, b2, b1, b0]) :: hex rest
  | _ => []

theorem schedule_low {block : List Bool} {t : Nat} (h : t < 16) :
    schedule block t = wordOf (part 32 block t) := by
  rw [schedule, if_pos h]

theorem schedule_high {block : List Bool} {t : Nat} (h : 16 ≤ t) :
    schedule block t = smallSigma1 (schedule block (t - 2)) + schedule block (t - 7) +
      smallSigma0 (schedule block (t - 15)) + schedule block (t - 16) := by
  rw [schedule, if_neg (by omega)]

theorem hex_bitsOf (n : Nat) (rest : List Bool) :
    hex (bitsOf 4 n ++ rest) = Nat.digitChar (n % 16) :: hex rest := by
  have hvalue := ofBits_bitsOf 4 n
  have hbits : bitsOf 4 n = [n.testBit 3, n.testBit 2, n.testBit 1, n.testBit 0] := rfl
  rw [hbits] at hvalue ⊢
  show Nat.digitChar (ofBits [n.testBit 3, n.testBit 2, n.testBit 1, n.testBit 0]) :: hex rest = _
  rw [hvalue]
  rfl

end Sha256
end Foundation
end Ostia

import Mathlib.Tactic.IntervalCases
import Ostia.Foundation.Sha256

/-!
# The hash of identities and manifests

The hash is computed block by block.  The last bytes and the padding are put together in a
buffer of their own, of one block or of two when fewer than nine bytes are left in the first.
-/

namespace Ostia
namespace Topology
namespace Sha256

open Foundation
open Foundation.Sha256 (Word Variables bytesBits bitsOf ofBits)

/-!
## One block
-/

def kRound : List Word :=
  [0x428a2f98, 0x71374491, 0xb5c0fbcf, 0xe9b5dba5, 0x3956c25b, 0x59f111f1, 0x923f82a4,
   0xab1c5ed5, 0xd807aa98, 0x12835b01, 0x243185be, 0x550c7dc3, 0x72be5d74, 0x80deb1fe,
   0x9bdc06a7, 0xc19bf174, 0xe49b69c1, 0xefbe4786, 0x0fc19dc6, 0x240ca1cc, 0x2de92c6f,
   0x4a7484aa, 0x5cb0a9dc, 0x76f988da, 0x983e5152, 0xa831c66d, 0xb00327c8, 0xbf597fc7,
   0xc6e00bf3, 0xd5a79147, 0x06ca6351, 0x14292967, 0x27b70a85, 0x2e1b2138, 0x4d2c6dfc,
   0x53380d13, 0x650a7354, 0x766a0abb, 0x81c2c92e, 0x92722c85, 0xa2bfe8a1, 0xa81a664b,
   0xc24b8b70, 0xc76c51a3, 0xd192e819, 0xd6990624, 0xf40e3585, 0x106aa070, 0x19a4c116,
   0x1e376c08, 0x2748774c, 0x34b0bcb5, 0x391c0cb3, 0x4ed8aa4a, 0x5b9cca4f, 0x682e6ff3,
   0x748f82ee, 0x78a5636f, 0x84c87814, 0x8cc70208, 0x90befffa, 0xa4506ceb, 0xbef9a3f7,
   0xc67178f2]

def rotr (x : Word) (n : Nat) : Word := x >>> n ||| x <<< (32 - n)

/-- Four bytes of a block, the first one highest. -/
def loadWord (block : List UInt8) (i : Nat) : Word :=
  block[4 * i]!.toBitVec.setWidth 32 <<< 24 ||| block[4 * i + 1]!.toBitVec.setWidth 32 <<< 16 |||
    block[4 * i + 2]!.toBitVec.setWidth 32 <<< 8 ||| block[4 * i + 3]!.toBitVec.setWidth 32

def loadWords (block : List UInt8) : List Word :=
  (List.range 16).foldl (fun w i => w.set i (loadWord block i)) (List.replicate 64 0)

def expandWord (w : List Word) (i : Nat) : List Word :=
  let s0 := rotr w[i - 15]! 7 ^^^ rotr w[i - 15]! 18 ^^^ w[i - 15]! >>> 3
  let s1 := rotr w[i - 2]! 17 ^^^ rotr w[i - 2]! 19 ^^^ w[i - 2]! >>> 10
  w.set i (w[i - 16]! + s0 + w[i - 7]! + s1)

def expand (block : List UInt8) : List Word :=
  (List.range' 16 48).foldl expandWord (loadWords block)

/-- One round; the variables are moved up one by one. -/
def round (w v : List Word) (i : Nat) : List Word :=
  let s1 := rotr v[4]! 6 ^^^ rotr v[4]! 11 ^^^ rotr v[4]! 25
  let ch := (v[4]! &&& v[5]!) ^^^ (~~~v[4]! &&& v[6]!)
  let t1 := v[7]! + s1 + ch + kRound[i]! + w[i]!
  let s0 := rotr v[0]! 2 ^^^ rotr v[0]! 13 ^^^ rotr v[0]! 22
  let maj := (v[0]! &&& v[1]!) ^^^ (v[0]! &&& v[2]!) ^^^ (v[1]! &&& v[2]!)
  let t2 := s0 + maj
  let v := v.set 7 v[6]!
  let v := v.set 6 v[5]!
  let v := v.set 5 v[4]!
  let v := v.set 4 (v[3]! + t1)
  let v := v.set 3 v[2]!
  let v := v.set 2 v[1]!
  let v := v.set 1 v[0]!
  v.set 0 (t1 + t2)

/-- Take the first 64 bytes of a block into the hash value. -/
def compress (h : List Word) (block : List UInt8) : List Word :=
  let w := expand block
  let v := (List.range 64).foldl (round w) h
  (List.range 8).foldl (fun h i => h.set i (h[i]! + v[i]!)) h

/-!
## The whole text
-/

def initial : List Word :=
  [0x6a09e667, 0xbb67ae85, 0x3c6ef372, 0xa54ff53a, 0x510e527f, 0x9b05688c, 0x1f83d9ab, 0x5be0cd19]

def tailLength (rem : Nat) : Nat := if rem < 56 then 64 else 128

/-- The last bytes, a mark, zeros, and the bit length, highest byte first. -/
def tailBytes (data : List UInt8) : List UInt8 :=
  let full := data.length / 64
  let rem := data.length - full * 64
  let tail := (List.range rem).foldl (fun tail i => tail.set i data[full * 64 + i]!)
    (List.replicate 128 0)
  let tail := tail.set rem 0x80
  let bits : BitVec 64 := BitVec.ofNat 64 data.length * 8
  (List.range 8).foldl (fun tail i =>
    tail.set (tailLength rem - 1 - i) (UInt8.ofBitVec ((bits >>> (8 * i)).setWidth 8))) tail

def kHex : List Char := "0123456789abcdef".toList

def hexWord (word : Word) : List Char :=
  [28, 24, 20, 16, 12, 8, 4, 0].map fun shift => kHex[((word >>> shift) &&& 0xf).toNat]!

def hashWords (data : List UInt8) : List Word :=
  let full := data.length / 64
  let rem := data.length - full * 64
  let h := (List.range full).foldl (fun h i => compress h (data.drop (64 * i))) initial
  let tail := tailBytes data
  (List.range (tailLength rem / 64)).foldl (fun h i => compress h (tail.drop (64 * i))) h

def sha256Hex (data : List UInt8) : String := String.ofList ((hashWords data).flatMap hexWord)

/-!
## Loops over arrays
-/

theorem length_foldl {A B : Type*} {step : List A -> B -> List A}
    (hstep : forall xs b, (step xs b).length = xs.length) (bs : List B) (xs : List A) :
    (bs.foldl step xs).length = xs.length := by
  induction bs generalizing xs with
  | nil => rfl
  | cons b bs ih => rw [List.foldl_cons, ih, hstep]

theorem length_foldl_set {A : Type*} (place : Nat -> Nat) (v : Nat -> A) (is : List Nat)
    (xs : List A) : (is.foldl (fun xs i => xs.set (place i) (v i)) xs).length = xs.length :=
  length_foldl (fun _ _ => List.length_set) is xs

/-- A loop that fills the first places of an array. -/
theorem foldl_set_range {A : Type*} (v : Nat -> A) (n : Nat) : forall xs : List A, n ≤ xs.length ->
    (List.range n).foldl (fun xs i => xs.set i (v i)) xs = (List.range n).map v ++ xs.drop n := by
  induction n with
  | zero =>
      intro xs _
      rfl
  | succ n ih =>
      intro xs hn
      have hdrop : xs.drop n = xs[n] :: xs.drop (n + 1) := List.drop_eq_getElem_cons hn
      rw [List.range_succ, List.foldl_append, ih xs (by omega), List.foldl_cons, List.foldl_nil,
        List.map_append, List.set_append_right n _ (by simp), List.length_map, List.length_range,
        Nat.sub_self, hdrop, List.set_cons_zero, List.append_assoc]
      rfl

/-- A loop that fills the places below a bound, downwards. -/
theorem foldl_set_below {A : Type*} (v : Nat -> A) (n m : Nat) : forall xs : List A, n ≤ m ->
    m ≤ xs.length ->
    (List.range n).foldl (fun xs i => xs.set (m - 1 - i) (v i)) xs =
      xs.take (m - n) ++ ((List.range n).map v).reverse ++ xs.drop m := by
  induction n with
  | zero =>
      intro xs _ _
      simp
  | succ n ih =>
      intro xs hn hm
      have htake : xs.take (m - n) = xs.take (m - (n + 1)) ++ [xs[m - 1 - n]] := by
        have hsucc : m - n = (m - 1 - n) + 1 := by omega
        have hpred : m - (n + 1) = m - 1 - n := by omega
        rw [hsucc, hpred]
        exact List.take_succ_eq_append_getElem (by omega)
      have hlength : (xs.take (m - (n + 1))).length = m - 1 - n := by
        rw [List.length_take]
        omega
      rw [List.range_succ, List.foldl_append, ih xs (by omega) hm, List.foldl_cons,
        List.foldl_nil, List.map_append, htake, List.append_assoc, List.append_assoc,
        List.set_append_right _ _ (by rw [hlength]), hlength, Nat.sub_self]
      simp

/-!
## The words of a block
-/

theorem rotr_eq (x : Word) {n : Nat} (hn : n < 32) : rotr x n = x.rotateRight n := by
  rw [BitVec.rotateRight_def, Nat.mod_eq_of_lt hn]
  rfl

theorem smallSigma0_eq (x : Word) :
    rotr x 7 ^^^ rotr x 18 ^^^ x >>> 3 = Foundation.Sha256.smallSigma0 x := by
  rw [rotr_eq x (by decide), rotr_eq x (by decide)]
  rfl

theorem smallSigma1_eq (x : Word) :
    rotr x 17 ^^^ rotr x 19 ^^^ x >>> 10 = Foundation.Sha256.smallSigma1 x := by
  rw [rotr_eq x (by decide), rotr_eq x (by decide)]
  rfl

theorem bigSigma0_eq (x : Word) :
    rotr x 2 ^^^ rotr x 13 ^^^ rotr x 22 = Foundation.Sha256.bigSigma0 x := by
  rw [rotr_eq x (by decide), rotr_eq x (by decide), rotr_eq x (by decide)]
  rfl

theorem bigSigma1_eq (x : Word) :
    rotr x 6 ^^^ rotr x 11 ^^^ rotr x 25 = Foundation.Sha256.bigSigma1 x := by
  rw [rotr_eq x (by decide), rotr_eq x (by decide), rotr_eq x (by decide)]
  rfl

/-- Four bytes joined by shifts are the number of their bits. -/
theorem joinBytes (b0 b1 b2 b3 : UInt8) :
    b0.toBitVec.setWidth 32 <<< 24 ||| b1.toBitVec.setWidth 32 <<< 16 |||
      b2.toBitVec.setWidth 32 <<< 8 ||| b3.toBitVec.setWidth 32 =
        Foundation.Sha256.wordOf (bytesBits [b0, b1, b2, b3]) := by
  have hlength : forall b, (Foundation.Sha256.byteBits b).length = 8 :=
    fun b => Foundation.Sha256.length_bitsOf 8 b.toNat
  have hvalue : ofBits (bytesBits [b0, b1, b2, b3]) =
      ((b0.toNat * 2 ^ 8 + b1.toNat) * 2 ^ 8 + b2.toNat) * 2 ^ 8 + b3.toNat := by
    have hbits : bytesBits [b0, b1, b2, b3] = Foundation.Sha256.byteBits b0 ++
        Foundation.Sha256.byteBits b1 ++ Foundation.Sha256.byteBits b2 ++
          Foundation.Sha256.byteBits b3 := by
      simp [bytesBits]
    rw [hbits, Foundation.Sha256.ofBits_append, Foundation.Sha256.ofBits_append,
      Foundation.Sha256.ofBits_append]
    simp only [Foundation.Sha256.ofBits_byteBits, hlength]
  have hshift : forall (b : UInt8) (k : Nat), k ≤ 24 ->
      (b.toBitVec.setWidth 32 <<< k).toNat = 2 ^ k * b.toNat := by
    intro b k hk
    have hb : b.toNat < 2 ^ 8 := b.toNat_lt
    have hpow : 2 ^ k * b.toNat < 2 ^ 32 :=
      calc
        2 ^ k * b.toNat < 2 ^ k * 2 ^ 8 := Nat.mul_lt_mul_of_pos_left hb (Nat.two_pow_pos k)
        _ = 2 ^ (k + 8) := (Nat.pow_add 2 k 8).symm
        _ ≤ 2 ^ 32 := Nat.pow_le_pow_right (by decide) (by omega)
    rw [BitVec.toNat_shiftLeft, BitVec.toNat_setWidth, UInt8.toNat_toBitVec,
      Nat.mod_eq_of_lt (lt_trans hb (by decide)), Nat.shiftLeft_eq, Nat.mul_comm,
      Nat.mod_eq_of_lt hpow]
  have h0 := b0.toNat_lt
  have h1 := b1.toNat_lt
  have h2 := b2.toNat_lt
  have h3 := b3.toNat_lt
  apply BitVec.eq_of_toNat_eq
  unfold Foundation.Sha256.wordOf
  rw [hvalue, BitVec.toNat_or, BitVec.toNat_or, BitVec.toNat_or, hshift b0 24 (by decide),
    hshift b1 16 (by decide), hshift b2 8 (by decide), BitVec.toNat_setWidth,
    UInt8.toNat_toBitVec, Nat.mod_eq_of_lt (show b3.toNat < 2 ^ 32 by omega),
    BitVec.toNat_ofNat]
  -- Each byte lies below the bits that are set already.
  have hfirst : 2 ^ 24 * b0.toNat ||| 2 ^ 16 * b1.toNat =
      2 ^ 16 * (2 ^ 8 * b0.toNat + b1.toNat) := by
    rw [← Nat.two_pow_add_eq_or_of_lt (by omega)]
    ring
  have hsecond : 2 ^ 16 * (2 ^ 8 * b0.toNat + b1.toNat) ||| 2 ^ 8 * b2.toNat =
      2 ^ 8 * (2 ^ 8 * (2 ^ 8 * b0.toNat + b1.toNat) + b2.toNat) := by
    rw [← Nat.two_pow_add_eq_or_of_lt (by omega)]
    ring
  rw [hfirst, hsecond, ← Nat.two_pow_add_eq_or_of_lt (by omega)]
  omega

/-- The first 64 bytes of a block as bits. -/
def blockBits (block : List UInt8) : List Bool := bytesBits (block.take 64)

theorem loadWord_eq {block : List UInt8} (hlength : 64 ≤ block.length) {t : Nat} (ht : t < 16) :
    loadWord block t = Foundation.Sha256.schedule (blockBits block) t := by
  have hbytes : ((block.take 64).drop (4 * t)).take 4 =
      [block[4 * t]!, block[4 * t + 1]!, block[4 * t + 2]!, block[4 * t + 3]!] := by
    apply List.ext_getElem
    · simp
      omega
    · intro i hi _
      have hi4 : i < 4 := by simp at hi; omega
      rw [List.getElem_take, List.getElem_drop, List.getElem_take]
      interval_cases i
      · exact (getElem!_pos block _ (by omega)).symm
      · exact (getElem!_pos block _ (by omega)).symm
      · exact (getElem!_pos block _ (by omega)).symm
      · exact (getElem!_pos block _ (by omega)).symm
  have hpart : Foundation.Sha256.part 32 (blockBits block) t =
      bytesBits (((block.take 64).drop (4 * t)).take 4) := by
    rw [Foundation.Sha256.bytesBits_take, Foundation.Sha256.bytesBits_drop, ← Nat.mul_assoc]
    rfl
  rw [Foundation.Sha256.schedule_low ht, hpart, hbytes]
  exact joinBytes _ _ _ _

/-- The schedule is filled from the front. -/
theorem expand_prefix {block : List UInt8} (hlength : 64 ≤ block.length) (n : Nat) :
    n ≤ 48 -> ((List.range' 16 n).foldl expandWord (loadWords block)).length = 64 ∧
      forall t, t < 16 + n -> ((List.range' 16 n).foldl expandWord (loadWords block))[t]! =
        Foundation.Sha256.schedule (blockBits block) t := by
  induction n with
  | zero =>
      intro _
      have hload : loadWords block =
          (List.range 16).map (loadWord block) ++ List.replicate 48 0 := by
        unfold loadWords
        rw [foldl_set_range _ _ _ (by simp)]
        rfl
      constructor
      · simp [hload]
      · intro t ht
        rw [List.range'_zero, List.foldl_nil, hload, getElem!_pos _ _ (by simp; omega),
          List.getElem_append_left (by simpa using ht), List.getElem_map, List.getElem_range]
        exact loadWord_eq hlength ht
  | succ n ih =>
      intro hn
      rcases ih (by omega) with ⟨hsize, hwords⟩
      rw [List.range'_concat, List.foldl_append, List.foldl_cons, List.foldl_nil, Nat.one_mul]
      generalize (List.range' 16 n).foldl expandWord (loadWords block) = w at hsize hwords
      have hnew : w[16 + n - 16]! + Foundation.Sha256.smallSigma0 w[16 + n - 15]! +
          w[16 + n - 7]! + Foundation.Sha256.smallSigma1 w[16 + n - 2]! =
            Foundation.Sha256.schedule (blockBits block) (16 + n) := by
        rw [Foundation.Sha256.schedule_high (by omega), hwords _ (by omega), hwords _ (by omega),
          hwords _ (by omega), hwords _ (by omega)]
        ac_rfl
      have hstep : expandWord w (16 + n) =
          w.set (16 + n) (Foundation.Sha256.schedule (blockBits block) (16 + n)) := by
        unfold expandWord
        simp only [smallSigma0_eq, smallSigma1_eq]
        rw [hnew]
      rw [hstep]
      constructor
      · rw [List.length_set, hsize]
      · intro t ht
        rw [getElem!_pos _ _ (by rw [List.length_set, hsize]; omega), List.getElem_set]
        split_ifs with heq
        · rw [heq]
        · rw [← getElem!_pos w t (by omega)]
          exact hwords t (by omega)

/-!
## The constants
-/

/-- The primes below 312. -/
def primes : List Nat :=
  [2, 3, 5, 7, 11, 13, 17, 19, 23, 29, 31, 37, 41, 43, 47, 53, 59, 61, 67, 71, 73, 79, 83, 89, 97,
   101, 103, 107, 109, 113, 127, 131, 137, 139, 149, 151, 157, 163, 167, 173, 179, 181, 191, 193,
   197, 199, 211, 223, 227, 229, 233, 239, 241, 251, 257, 263, 269, 271, 277, 281, 283, 293, 307,
   311]

theorem primes_eq : (List.range 312).filter (fun p => Nat.Prime p) = primes := by
  have hsmall : (List.range 18).filter (fun p => Nat.Prime p) = [2, 3, 5, 7, 11, 13, 17] := by
    decide +kernel
  have hsieve : (List.range 312).filter (fun p => Nat.Prime p) = (List.range 312).filter fun p =>
      2 ≤ p ∧ forall d, d ∈ [2, 3, 5, 7, 11, 13, 17] -> d ∣ p -> d = p := by
    refine List.filter_congr ?_
    intro p hp
    have hlt : p < 18 ^ 2 := Nat.lt_trans (List.mem_range.mp hp) (by decide)
    rw [decide_eq_decide, Foundation.Sha256.prime_iff_of_lt_sq hlt, hsmall]
  rw [hsieve]
  decide +kernel

/-- A word lies between the roots that belong to it and to its successor. -/
def IsRoot (k n : Nat) (word : Word) (whole : Nat) : Prop :=
  (whole * 2 ^ 32 + word.toNat) ^ k ≤ n * 2 ^ (32 * k) ∧
    n * 2 ^ (32 * k) < (whole * 2 ^ 32 + word.toNat + 1) ^ k

instance (k n : Nat) (word : Word) (whole : Nat) : Decidable (IsRoot k n word whole) :=
  inferInstanceAs (Decidable (_ ∧ _))

theorem fractionBits_eq {k n whole : Nat} {word : Word} (hk : k ≠ 0)
    (h : IsRoot k n word whole) :
    Foundation.Sha256.fractionBits ((n : Real) ^ (k : Real)⁻¹) = word := by
  rw [Foundation.Sha256.fractionBits_root hk word.isLt h.1 h.2]
  exact BitVec.ofNat_toNat 32 word |>.trans (BitVec.setWidth_eq word)

theorem kRound_roots :
    forall t, t < 64 -> exists whole, whole < 8 ∧ IsRoot 3 primes[t]! kRound[t]! whole := by
  decide +kernel

theorem initial_roots :
    forall i, i < 8 -> exists whole, whole < 8 ∧ IsRoot 2 primes[i]! initial[i]! whole := by
  decide +kernel

theorem nth_prime {t : Nat} (ht : t < 64) : Nat.nth Nat.Prime t = primes[t]! := by
  rw [getElem!_pos primes t ht]
  exact Foundation.Sha256.nth_prime_of_filter primes_eq ht

theorem kRound_eq {t : Nat} (ht : t < 64) :
    Foundation.Sha256.roundConstant t = kRound[t]! := by
  rcases kRound_roots t ht with ⟨whole, _, hroot⟩
  unfold Foundation.Sha256.roundConstant
  rw [nth_prime ht]
  exact fractionBits_eq (by decide) hroot

theorem initial_eq : Foundation.Sha256.initial.words = initial := by
  have hword : forall i, i < 8 -> Foundation.Sha256.initialWord i = initial[i]! := by
    intro i hi
    rcases initial_roots i hi with ⟨whole, _, hroot⟩
    unfold Foundation.Sha256.initialWord
    rw [nth_prime (by omega)]
    exact fractionBits_eq (by decide) hroot
  unfold Foundation.Sha256.initial Variables.words
  rw [hword 0 (by decide), hword 1 (by decide), hword 2 (by decide), hword 3 (by decide),
    hword 4 (by decide), hword 5 (by decide), hword 6 (by decide), hword 7 (by decide)]
  rfl

/-!
## The hash value after a block
-/

/-- The array of the variables after a round is the one of the rules. -/
theorem round_eq {w : List Word} {bits : List Bool} {t : Nat} (ht : t < 64)
    (hw : w[t]! = Foundation.Sha256.schedule bits t) (v : Variables) :
    round w v.words t = (Foundation.Sha256.round bits v t).words := by
  unfold round Variables.words
  simp only [bigSigma0_eq, bigSigma1_eq]
  rw [hw, ← kRound_eq ht]
  rfl

theorem compress_eq {block : List UInt8} (hlength : 64 ≤ block.length) (hash : Variables) :
    compress hash.words block =
      (Foundation.Sha256.compress hash (blockBits block)).words := by
  rcases expand_prefix hlength 48 (le_refl 48) with ⟨_, hwords⟩
  have hrounds : (List.range 64).foldl (round (expand block)) hash.words =
      ((List.range 64).foldl (Foundation.Sha256.round (blockBits block)) hash).words := by
    apply List.foldl_rel (r := fun v v' => v = Variables.words v') rfl
    intro t ht v v' hv
    rw [hv]
    exact round_eq (List.mem_range.mp ht) (hwords t (List.mem_range.mp ht)) v'
  unfold compress Foundation.Sha256.compress
  dsimp only
  rw [hrounds]
  rw [Variables.add_comm]
  rfl

/-!
## Padding
-/

/-- The length of a text in bits, in eight bytes. -/
def lengthBytes (length : Nat) : List UInt8 :=
  ((List.range 8).map fun i =>
    UInt8.ofBitVec (((BitVec.ofNat 64 length * 8) >>> (8 * i)).setWidth 8)).reverse

/-- What follows a text up to the end of its last block. -/
def padding (length : Nat) : List UInt8 :=
  0x80 :: List.replicate (tailLength (length % 64) - 9 - length % 64) 0 ++ lengthBytes length

theorem length_lengthBytes (length : Nat) : (lengthBytes length).length = 8 := by
  simp [lengthBytes]

theorem tailLength_bounds {rem : Nat} (h : rem < 64) :
    rem + 9 ≤ tailLength rem ∧ tailLength rem ≤ 128 ∧ tailLength rem % 64 = 0 := by
  unfold tailLength
  split_ifs
  · omega
  · omega

theorem length_padding (length : Nat) :
    length % 64 + (padding length).length = tailLength (length % 64) := by
  have hbounds := tailLength_bounds (Nat.mod_lt length (by decide : 0 < 64))
  unfold padding
  rw [List.length_append, List.length_cons, List.length_replicate, length_lengthBytes]
  omega

/-- The buffer holds the last bytes and the padding. -/
theorem tailBytes_eq (data : List UInt8) :
    (tailBytes data).take (tailLength (data.length % 64)) =
      data.drop (64 * (data.length / 64)) ++ padding data.length := by
  have hrem : data.length - data.length / 64 * 64 = data.length % 64 := by omega
  have hbounds := tailLength_bounds (Nat.mod_lt data.length (by decide : 0 < 64))
  have hcopy : (List.range (data.length % 64)).map (fun i => data[data.length / 64 * 64 + i]!) =
      data.drop (64 * (data.length / 64)) := by
    apply List.ext_getElem
    · simp
      omega
    · intro i hi _
      have hi' : i < data.length % 64 := by simpa using hi
      rw [List.getElem_map, List.getElem_range, List.getElem_drop,
        getElem!_pos data _ (by omega)]
      congr 1
      omega
  have hlength : (data.drop (64 * (data.length / 64))).length = data.length % 64 := by
    rw [List.length_drop]
    omega
  unfold tailBytes
  dsimp only
  rw [hrem, foldl_set_range _ _ _ (by simp; omega), hcopy]
  generalize hrest : data.drop (64 * (data.length / 64)) = rest at hlength
  rw [← hlength] at hbounds ⊢
  have hset : (rest ++ (List.replicate 128 (0 : UInt8)).drop rest.length).set rest.length 0x80 =
      rest ++ 0x80 :: List.replicate (127 - rest.length) 0 := by
    have hpos : 128 - rest.length = (127 - rest.length) + 1 := by omega
    rw [List.set_append_right _ _ (le_refl _), Nat.sub_self, List.drop_replicate, hpos,
      List.replicate_succ, List.set_cons_zero]
  -- The eight length bytes end the last block, so the zeros before them are cut to fit.
  have hzeros : (rest ++ 0x80 :: List.replicate (127 - rest.length) (0 : UInt8)).take
      (tailLength rest.length - 8) =
        rest ++ 0x80 :: List.replicate (tailLength rest.length - 9 - rest.length) 0 := by
    have htake : tailLength rest.length - 8 =
        rest.length + ((tailLength rest.length - 9 - rest.length) + 1) := by omega
    have hmin : min (tailLength rest.length - 9 - rest.length) (127 - rest.length) =
        tailLength rest.length - 9 - rest.length := by omega
    rw [htake, List.take_length_add_append, List.take_succ_cons, List.take_replicate, hmin]
  rw [hset, foldl_set_below _ _ _ _ (by omega) (by simp; omega), hzeros, List.append_assoc,
    ← List.append_assoc, List.take_left']
  · unfold padding lengthBytes
    rw [hlength]
    simp
  · simp
    omega

theorem length_tailBytes (data : List UInt8) : (tailBytes data).length = 128 := by
  unfold tailBytes
  dsimp only
  rw [length_foldl_set, List.length_set, length_foldl_set, List.length_replicate]

theorem byteBits_ofNat (n : Nat) :
    Foundation.Sha256.byteBits (UInt8.ofBitVec (BitVec.ofNat 8 n)) = bitsOf 8 n := by
  unfold Foundation.Sha256.byteBits
  show bitsOf 8 (BitVec.ofNat 8 n).toNat = _
  rw [BitVec.toNat_ofNat, Foundation.Sha256.bitsOf_mod]

/-- The length bytes are the bits of the length, as long as it fits. -/
theorem bytesBits_lengthBytes {length : Nat} (h : length < 2 ^ 61) :
    bytesBits (lengthBytes length) = bitsOf 64 (8 * length) := by
  have hbits : (BitVec.ofNat 64 length * 8).toNat = 8 * length := by
    rw [BitVec.toNat_mul, BitVec.toNat_ofNat]
    show length % 2 ^ 64 * 8 % 2 ^ 64 = _
    omega
  have hbyte : forall i, ((BitVec.ofNat 64 length * 8) >>> (8 * i)).setWidth 8 =
      BitVec.ofNat 8 (8 * length / 2 ^ (8 * i)) := by
    intro i
    apply BitVec.eq_of_toNat_eq
    rw [BitVec.toNat_setWidth, BitVec.toNat_ushiftRight, hbits, Nat.shiftRight_eq_div_pow,
      BitVec.toNat_ofNat]
  have hsplit : forall n, bitsOf 64 n = bitsOf 8 (n / 2 ^ 56) ++ (bitsOf 8 (n / 2 ^ 48) ++
      (bitsOf 8 (n / 2 ^ 40) ++ (bitsOf 8 (n / 2 ^ 32) ++ (bitsOf 8 (n / 2 ^ 24) ++
        (bitsOf 8 (n / 2 ^ 16) ++ (bitsOf 8 (n / 2 ^ 8) ++ bitsOf 8 n)))))) := by
    intro n
    rw [Foundation.Sha256.bitsOf_add 8 56, Foundation.Sha256.bitsOf_add 8 48,
      Foundation.Sha256.bitsOf_add 8 40, Foundation.Sha256.bitsOf_add 8 32,
      Foundation.Sha256.bitsOf_add 8 24, Foundation.Sha256.bitsOf_add 8 16,
      Foundation.Sha256.bitsOf_add 8 8]
  rw [hsplit]
  unfold lengthBytes
  simp only [hbyte]
  show bytesBits [_, _, _, _, _, _, _, _] = _
  unfold bytesBits
  simp only [List.flatMap_cons, List.flatMap_nil, byteBits_ofNat, List.append_nil]
  simp

/-- The padded bytes are the padded message. -/
theorem bytesBits_padding {data : List UInt8} (h : data.length < 2 ^ 61) :
    bytesBits (data ++ padding data.length) = Foundation.Sha256.pad (bytesBits data) := by
  have hmark : Foundation.Sha256.byteBits 0x80 = true :: List.replicate 7 false := by decide
  have hzeros : forall n, bytesBits (List.replicate n 0) = List.replicate (8 * n) false := by
    intro n
    induction n with
    | zero => rfl
    | succ n ih =>
        have hzero : Foundation.Sha256.byteBits 0 = List.replicate 8 false := by decide
        rw [List.replicate_succ]
        show Foundation.Sha256.byteBits 0 ++ bytesBits (List.replicate n 0) = _
        rw [ih, hzero, List.replicate_append_replicate]
        congr 1
        omega
  have hcount : Foundation.Sha256.zeros (8 * data.length) =
      7 + 8 * (tailLength (data.length % 64) - 9 - data.length % 64) := by
    unfold Foundation.Sha256.zeros tailLength
    split_ifs
    · omega
    · omega
  unfold Foundation.Sha256.pad padding
  rw [Foundation.Sha256.bytesBits_append, Foundation.Sha256.bytesBits_append,
    bytesBits_lengthBytes h, Foundation.Sha256.length_bytesBits, hcount]
  show bytesBits data ++ ((Foundation.Sha256.byteBits 0x80 ++ bytesBits (List.replicate _ 0)) ++
    bitsOf 64 (8 * data.length)) = _
  rw [hmark, hzeros, List.cons_append, List.replicate_append_replicate, List.append_assoc]

/-!
## The digest
-/

/-- The blocks of the text and of the buffer are those of the padded message. -/
theorem hashWords_eq {data : List UInt8} (h : data.length < 2 ^ 61) :
    hashWords data = (Foundation.Sha256.hashBlocks (Foundation.Sha256.pad (bytesBits data))
      ((Foundation.Sha256.pad (bytesBits data)).length / 512)).words := by
  have hbounds := tailLength_bounds (Nat.mod_lt data.length (by decide : 0 < 64))
  have hrem : data.length - data.length / 64 * 64 = data.length % 64 := by omega
  rw [← bytesBits_padding h]
  generalize hpadded : data ++ padding data.length = padded
  have hlength : padded.length =
      64 * (data.length / 64) + tailLength (data.length % 64) := by
    have hpadding := length_padding data.length
    rw [← hpadded, List.length_append]
    omega
  have hcount : (bytesBits padded).length / 512 =
      data.length / 64 + tailLength (data.length % 64) / 64 := by
    rw [Foundation.Sha256.length_bytesBits, hlength]
    omega
  have hpart : forall i, Foundation.Sha256.part 512 (bytesBits padded) i =
      blockBits (padded.drop (64 * i)) := by
    intro i
    unfold blockBits
    rw [Foundation.Sha256.bytesBits_take, Foundation.Sha256.bytesBits_drop, ← Nat.mul_assoc]
    rfl
  -- A block of the text or of the buffer is one of the padded message.
  have hstep : forall (block : List UInt8) (i : Nat) (hash : Variables), 64 ≤ block.length ->
      block.take 64 = (padded.drop (64 * i)).take 64 ->
        compress hash.words block = (Foundation.Sha256.compress hash
          (Foundation.Sha256.part 512 (bytesBits padded) i)).words := by
    intro block i hash hblock htake
    rw [compress_eq hblock, hpart]
    unfold blockBits
    rw [htake]
  have hfull : (List.range (data.length / 64)).foldl
      (fun h i => compress h (data.drop (64 * i))) initial =
        (Foundation.Sha256.hashBlocks (bytesBits padded) (data.length / 64)).words := by
    unfold Foundation.Sha256.hashBlocks
    apply List.foldl_rel (r := fun h hash => h = Variables.words hash) initial_eq.symm
    intro i hi _ hash hh
    have hlt := List.mem_range.mp hi
    rw [hh]
    apply hstep
    · rw [List.length_drop]
      omega
    · rw [← hpadded, List.drop_append_of_le_length (by omega),
        List.take_append_of_le_length (by rw [List.length_drop]; omega)]
  have htail : padded.drop (64 * (data.length / 64)) =
      (tailBytes data).take (tailLength (data.length % 64)) := by
    rw [tailBytes_eq, ← hpadded, List.drop_append_of_le_length (by omega)]
  unfold hashWords
  dsimp only
  rw [hrem, hfull, hcount]
  unfold Foundation.Sha256.hashBlocks
  rw [List.range_add, List.foldl_append, List.foldl_map]
  apply List.foldl_rel (r := fun h hash => h = Variables.words hash) rfl
  intro i hi _ hash hh
  have hlt := List.mem_range.mp hi
  rw [hh]
  apply hstep
  · rw [List.length_drop, length_tailBytes]
    omega
  · rw [Nat.mul_add, ← List.drop_drop, htail, List.drop_take, List.take_take,
      Nat.min_eq_left (by omega)]

theorem kHex_eq : forall n, n < 16 -> kHex[n]! = Nat.digitChar n := by decide

theorem hexWord_eq (word : Word) (rest : List Bool) :
    Foundation.Sha256.hex (bitsOf 32 word.toNat ++ rest) =
      hexWord word ++ Foundation.Sha256.hex rest := by
  have hdigit : forall shift, kHex[((word >>> shift) &&& 0xf).toNat]! =
      Nat.digitChar (word.toNat / 2 ^ shift % 16) := by
    intro shift
    have hvalue : ((word >>> shift) &&& 0xf).toNat = word.toNat / 2 ^ shift % 16 := by
      rw [BitVec.toNat_and, BitVec.toNat_ushiftRight, Nat.shiftRight_eq_div_pow]
      exact Nat.and_two_pow_sub_one_eq_mod _ 4
    rw [hvalue]
    exact kHex_eq _ (Nat.mod_lt _ (by decide))
  unfold hexWord
  simp only [hdigit]
  rw [Foundation.Sha256.bitsOf_add 4 28, Foundation.Sha256.bitsOf_add 4 24,
    Foundation.Sha256.bitsOf_add 4 20, Foundation.Sha256.bitsOf_add 4 16,
    Foundation.Sha256.bitsOf_add 4 12, Foundation.Sha256.bitsOf_add 4 8,
    Foundation.Sha256.bitsOf_add 4 4]
  simp only [List.append_assoc, Foundation.Sha256.hex_bitsOf]
  simp

/-- The text is the digest of the standard, in 64 hexadecimal digits. -/
theorem sha256Hex_digest {data : List UInt8} (h : data.length < 2 ^ 61) :
    sha256Hex data = String.ofList
        (Foundation.Sha256.hex (Foundation.Sha256.digest (bytesBits data))) ∧
      (sha256Hex data).length = 64 := by
  have hhex : forall words : List Word,
      Foundation.Sha256.hex (words.flatMap fun w => bitsOf 32 w.toNat) = words.flatMap hexWord := by
    intro words
    induction words with
    | nil => rfl
    | cons word words ih => rw [List.flatMap_cons, List.flatMap_cons, hexWord_eq, ih]
  unfold sha256Hex Foundation.Sha256.digest
  rw [hhex, hashWords_eq h]
  constructor
  · rfl
  · rw [String.length_ofList]
    rfl

/-- Every text has a hash of 64 digits in lower case. -/
theorem sha256Hex_digits (data : List UInt8) :
    (sha256Hex data).toList.length = 64 ∧ forall c, c ∈ (sha256Hex data).toList -> c ∈ kHex := by
  have hcompress : forall h block, (compress h block).length = h.length :=
    fun h _ => length_foldl (fun _ _ => List.length_set) _ h
  have hwords : (hashWords data).length = 8 := by
    unfold hashWords
    dsimp only
    rw [length_foldl fun h _ => hcompress h _, length_foldl fun h _ => hcompress h _]
    rfl
  have hlength : forall words : List Word, (words.flatMap hexWord).length = 8 * words.length := by
    intro words
    induction words with
    | nil => rfl
    | cons word words ih =>
        rw [List.flatMap_cons, List.length_append, ih, List.length_cons, Nat.mul_succ,
          Nat.add_comm]
        rfl
  have hdigit : forall n, n < 16 -> kHex[n]! ∈ kHex := by decide
  unfold sha256Hex
  rw [String.toList_ofList, hlength, hwords]
  refine ⟨rfl, ?_⟩
  intro c hc
  rcases List.mem_flatMap.mp hc with ⟨word, _, hc⟩
  rcases List.mem_map.mp hc with ⟨shift, _, rfl⟩
  apply hdigit
  rw [BitVec.toNat_and]
  exact Nat.lt_of_le_of_lt Nat.and_le_right (by decide)

theorem sha256Hex_digest_abc :
    String.ofList (Foundation.Sha256.hex (Foundation.Sha256.digest (bytesBits [97, 98, 99]))) =
      "ba7816bf8f01cfea414140de5dae2223b00361a396177a9cb410ff61f20015ad" := by
  have hlength : ([97, 98, 99] : List UInt8).length < 2 ^ 61 := by decide
  rw [← (sha256Hex_digest hlength).1]
  decide +kernel

end Sha256
end Topology
end Ostia

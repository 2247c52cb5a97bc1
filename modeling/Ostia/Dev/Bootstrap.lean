import Ostia.Dev.Bench
import Ostia.Foundation.Binary64
import Ostia.Foundation.Sorting

/-!
# The bootstrap of a case

The change of a case is that of the medians, relative to the baseline; its interval comes from
the medians of 10,000 resamples.  Integers stay exact until they are divided.

The generator with its fixed seed is a parameter: which samples a resample draws depends on the
numbers of samples only.
-/

namespace Ostia
namespace Dev
namespace Bench

open Foundation

/-!
## Numbers
-/

/-- A number of Python: an integer or a floating point number. -/
inductive Num where
  | int (n : Int)
  | float (x : Number)
deriving DecidableEq

/-- The number of a sample; a truth value is 0 or 1. -/
def sample? {F : Type} [PyFloat F] : Value F -> Option Num
  | .bool b => some (.int b.toInt)
  | .int n => some (.int n)
  | .float x => some (.float (PyFloat.value x))
  | _ => none

/-- The double of an exact result. -/
def rounded (q : Rat) : Number :=
  match Binary64.round q with
  | some r => .finite r
  | none => .infinity (decide (q < 0))

def Number.neg : Number -> Number
  | .finite q => .finite (-q)
  | .infinity negative => .infinity (!negative)
  | .nan => .nan

def Number.add : Number -> Number -> Number
  | .finite p, .finite q => rounded (p + q)
  | .infinity a, .infinity b => if a = b then .infinity a else .nan
  | .infinity a, .finite _ => .infinity a
  | .finite _, .infinity b => .infinity b
  | _, _ => .nan

/-- The quotient by a number other than zero. -/
def Number.quotient : Number -> Number -> Number
  | .finite p, .finite q => rounded (p / q)
  | .finite _, .infinity _ => .finite 0
  | .infinity a, .finite q => .infinity (a != decide (q < 0))
  | _, _ => .nan

/-- The float of an integer; one that is too large has none. -/
def floatOfInt (n : Int) : Except Exn Number :=
  match Binary64.round n with
  | some q => .ok (.finite q)
  | none => .error .overflowError

def Num.toFloat : Num -> Except Exn Number
  | .int n => floatOfInt n
  | .float x => .ok x

def Num.add : Num -> Num -> Except Exn Num
  | .int a, .int b => .ok (.int (a + b))
  | a, b => do
      let x ← a.toFloat
      let y ← b.toFloat
      pure (.float (Number.add x y))

def Num.sub : Num -> Num -> Except Exn Num
  | .int a, .int b => .ok (.int (a - b))
  | a, b => do
      let x ← a.toFloat
      let y ← b.toFloat
      pure (.float (Number.add x (Number.neg y)))

def intDiv (a b : Int) : Except Exn Number :=
  if b = 0 then .error .zeroDivisionError
  else
    match Binary64.round (a / b) with
    | some q => .ok (.finite q)
    | none => .error .overflowError

def floatDiv (x y : Number) : Except Exn Number :=
  if y = .finite 0 then .error .zeroDivisionError else .ok (Number.quotient x y)

/-- The true division, whose result is a float. -/
def Num.div : Num -> Num -> Except Exn Number
  | .int a, .int b => intDiv a b
  | a, b => do
      let x ← a.toFloat
      let y ← b.toFloat
      floatDiv x y

/-- The value that finite numbers are sorted by. -/
def Num.exact : Num -> Rat
  | .int n => n
  | .float (.finite q) => q
  | .float _ => 0

/-- The median of finite numbers. -/
def median (xs : List Num) : Except Exn Num :=
  match Sorting.stableSort Num.exact xs with
  | [] => .error (.other "StatisticsError")
  | x :: rest =>
      let data := x :: rest
      if data.length % 2 = 1 then .ok (data.getD (data.length / 2) x)
      else do
        let total ← (data.getD (data.length / 2 - 1) x).add (data.getD (data.length / 2) x)
        let half ← total.div (.int 2)
        pure (.float half)

/-!
## Comparing the medians
-/

def worse (baseMedian candMedian : Num) (higherIsBetter : Bool) : Except Exn Number := do
  let change ← (← candMedian.sub baseMedian).div baseMedian
  pure (if higherIsBetter then Number.neg change else change)

def resamples : Nat := 10000

/-- The generator and the sort of the changes, which may hold NaNs. -/
structure Generator (F : Type) where
  /-- The indices that the resamples of the two sides draw. -/
  draws : Nat -> Nat -> List (List Nat × List Nat)
  draws_length : forall n m, (draws n m).length = resamples
  drawn : forall n m p, p ∈ draws n m -> p.1.length = n ∧ p.2.length = m ∧
    (forall i, i ∈ p.1 -> i < n) ∧ forall i, i ∈ p.2 -> i < m
  sorted : List Number -> List Number
  sorted_length : forall xs, (sorted xs).length = xs.length
  /-- A float as it is kept in a result. -/
  float : Number -> F

/-- The samples at the drawn indices. -/
def choose (samples : List Num) (drawn : List Nat) : List Num :=
  drawn.map fun i => samples.getD i (.int 0)

def numbers {F : Type} [PyFloat F] (samples : List (Value F)) : Except Exn (List Num) :=
  samples.mapM fun v =>
    match sample? v with
    | some x => .ok x
    | none => .error .typeError

variable {F : Type}

/-- The change of one pair of resamples. -/
def changeOf (baseline candidate : List Num) (higherIsBetter : Bool) : Except Exn Number := do
  worse (← median baseline) (← median candidate) higherIsBetter

def interval [PyFloat F] (g : Generator F) (baseline candidate : List (Value F))
    (higherIsBetter : Bool) : Except Exn (F × F × F) := do
  let base ← numbers baseline
  let cand ← numbers candidate
  let d ← changeOf base cand higherIsBetter
  let boot ← (g.draws base.length cand.length).mapM fun p =>
    changeOf (choose base p.1) (choose cand p.2) higherIsBetter
  match (g.sorted boot)[250]?, (g.sorted boot)[9749]? with
  | some lo, some hi => pure (g.float d, g.float lo, g.float hi)
  | _, _ => .error .indexError

/-- The double next to one twentieth. -/
def threshold : Rat := 3602879701896397 / 2 ^ 56

def Number.lt : Number -> Number -> Bool
  | .finite p, .finite q => p < q
  | .infinity negative, .finite _ => negative
  | .finite _, .infinity negative => !negative
  | .infinity a, .infinity b => a && !b
  | _, _ => false

/-- The comparison with the bootstrap as the code computes it. -/
def Python.withBootstrap [PyFloat F] (py : Python F) (g : Generator F) : Python F :=
  { py with
    bootstrap := interval g
    below := fun x => Number.lt (PyFloat.value x) (.finite threshold)
    above := fun x => Number.lt (.finite threshold) (PyFloat.value x) }

/-!
## When the medians can be compared
-/

/-- A sample that the validation takes. -/
def Num.Finite : Num -> Prop
  | .int n => n.natAbs < floatLimit
  | .float x => exists q, x = .finite q

/-- The number is not zero. -/
def Num.nonzero : Num -> Bool
  | .int n => n != 0
  | .float x => x != .finite 0

/-- The relative change of two medians: no division by zero, and no quotient of integers that
is too large. -/
def Divisible (baseMedian candMedian : Num) : Prop :=
  baseMedian.nonzero = true ∧
    forall b c, baseMedian = .int b -> candMedian = .int c ->
      (c - b).natAbs < floatLimit * b.natAbs

theorem limit_eq_floatLimit : Binary64.limit = floatLimit := rfl

theorem round_int {n : Int} : Binary64.round n = none <-> floatLimit ≤ n.natAbs := by
  rw [Binary64.round_eq_none_iff, limit_eq_floatLimit, ← Int.cast_abs, Int.abs_eq_natAbs]
  norm_cast

theorem toFloat_ok {x : Num} (h : forall n, x = .int n -> n.natAbs < floatLimit) :
    exists y, x.toFloat = .ok y := by
  cases x with
  | float y => exact ⟨y, rfl⟩
  | int n =>
      show exists y, floatOfInt n = .ok y
      unfold floatOfInt
      cases hround : Binary64.round n with
      | none => exact absurd (round_int.mp hround) (not_le.mpr (h n rfl))
      | some q => exact ⟨.finite q, rfl⟩

/-- A float is zero exactly when its number is. -/
theorem toFloat_eq_zero {x : Num} {y : Number} (h : x.toFloat = .ok y) :
    y = .finite 0 <-> x.nonzero = false := by
  cases x with
  | float x =>
      injection h with h
      rw [h]
      simp [Num.nonzero]
  | int n =>
      change floatOfInt n = .ok y at h
      unfold floatOfInt at h
      cases hround : Binary64.round n with
      | none =>
          rw [hround] at h
          cases h
      | some q =>
          rw [hround] at h
          injection h with h
          rw [← h]
          have hzero : q = 0 <-> n = 0 := by
            constructor
            · intro hq
              by_contra hn
              apply @Binary64.round_ne_zero n
              · rw [← Int.cast_abs]
                exact_mod_cast Int.one_le_abs hn
              · rw [hround, hq]
            · intro hn
              rw [hn] at hround
              simpa [Binary64.round] using hround.symm
          simp [Num.nonzero, hzero]

/-- The true division of integers. -/
theorem intDiv_ok_iff {a b : Int} :
    (exists y, intDiv a b = .ok y) <-> b ≠ 0 ∧ a.natAbs < floatLimit * b.natAbs := by
  unfold intDiv
  by_cases hb : b = 0
  · rw [if_pos hb]
    constructor
    · intro h
      obtain ⟨y, h⟩ := h
      cases h
    · intro h
      exact absurd hb h.1
  · rw [if_neg hb]
    have hpos : (0 : ℚ) < |(b : ℚ)| := by
      rw [abs_pos]
      exact_mod_cast hb
    have hround : Binary64.round ((a : ℚ) / b) = none <->
        floatLimit * b.natAbs ≤ a.natAbs := by
      rw [Binary64.round_eq_none_iff, limit_eq_floatLimit, abs_div, le_div_iff₀ hpos,
        ← Int.cast_abs, ← Int.cast_abs, Int.abs_eq_natAbs, Int.abs_eq_natAbs]
      norm_cast
    cases hq : Binary64.round ((a : ℚ) / b) with
    | none =>
        have hlarge := hround.mp hq
        constructor
        · intro h
          obtain ⟨y, h⟩ := h
          cases h
        · intro h
          omega
    | some q =>
        have hsmall : ¬floatLimit * b.natAbs ≤ a.natAbs := by
          intro h
          rw [hround.mpr h] at hq
          cases hq
        exact iff_of_true ⟨.finite q, rfl⟩ ⟨hb, by omega⟩

/-- Both numbers are integers. -/
def BothInt (a b : Num) : Prop := exists n m, a = .int n ∧ b = .int m

theorem div_of_not_bothInt {a b : Num} (h : ¬BothInt a b) : a.div b = (do
    let x ← a.toFloat
    let y ← b.toFloat
    floatDiv x y) := by
  cases a with
  | float x => rfl
  | int n =>
      cases b with
      | float y => rfl
      | int m => exact absurd ⟨n, m, rfl, rfl⟩ h

theorem sub_of_not_bothInt {a b : Num} (h : ¬BothInt a b) : a.sub b = (do
    let x ← a.toFloat
    let y ← b.toFloat
    pure (.float (Number.add x (Number.neg y)))) := by
  cases a with
  | float x => rfl
  | int n =>
      cases b with
      | float y => rfl
      | int m => exact absurd ⟨n, m, rfl, rfl⟩ h

theorem add_of_not_bothInt {a b : Num} (h : ¬BothInt a b) : a.add b = (do
    let x ← a.toFloat
    let y ← b.toFloat
    pure (.float (Number.add x y))) := by
  cases a with
  | float x => rfl
  | int n =>
      cases b with
      | float y => rfl
      | int m => exact absurd ⟨n, m, rfl, rfl⟩ h

theorem not_bothInt_float {x : Number} {b : Num} : ¬BothInt (.float x) b := by
  intro h
  obtain ⟨n, m, hn, _⟩ := h
  cases hn

/-- The division of a float. -/
theorem div_float_ok_iff {x y : Number} {b : Num} (hb : b.toFloat = .ok y) :
    (exists z, (Num.float x).div b = .ok z) <-> b.nonzero = true := by
  rw [div_of_not_bothInt not_bothInt_float, hb]
  show (exists z, floatDiv x y = .ok z) <-> b.nonzero = true
  unfold floatDiv
  by_cases hy : y = .finite 0
  · have hzero := (toFloat_eq_zero hb).mp hy
    rw [if_pos hy, hzero]
    constructor
    · intro h
      obtain ⟨z, h⟩ := h
      cases h
    · intro h
      cases h
  · rw [if_neg hy]
    have hnonzero : b.nonzero = true := by
      cases hz : b.nonzero with
      | true => rfl
      | false => exact absurd ((toFloat_eq_zero hb).mpr hz) hy
    exact iff_of_true ⟨_, rfl⟩ hnonzero

/-- An integer that is bounded as the samples are. -/
def Num.Bounded (x : Num) : Prop := forall n, x = .int n -> n.natAbs < floatLimit

/-- The change of two medians is there exactly when they can be divided. -/
theorem worse_ok_iff {b c : Num} {higher : Bool} (hb : b.Bounded) (hc : c.Bounded) :
    (exists d, worse b c higher = .ok d) <-> Divisible b c := by
  have hworse : (exists d, worse b c higher = .ok d) <->
      exists diff, c.sub b = .ok diff ∧ exists d, diff.div b = .ok d := by
    unfold worse
    constructor
    · intro h
      obtain ⟨d, h⟩ := h
      obtain ⟨diff, hdiff, h⟩ := Fallible.bind_eq_ok.mp h
      obtain ⟨change, hchange, _⟩ := Fallible.bind_eq_ok.mp h
      exact ⟨diff, hdiff, change, hchange⟩
    · intro h
      obtain ⟨diff, hdiff, change, hchange⟩ := h
      rw [hdiff, Fallible.ok_bind, hchange]
      exact ⟨_, rfl⟩
  rw [hworse]
  by_cases hints : BothInt c b
  · obtain ⟨n, m, rfl, rfl⟩ := hints
    have hdiv := @intDiv_ok_iff (n - m) m
    constructor
    · intro h
      obtain ⟨diff, hdiff, h⟩ := h
      injection hdiff with hdiff
      rw [← hdiff] at h
      obtain ⟨hm, hsmall⟩ := hdiv.mp h
      constructor
      · simpa [Num.nonzero] using hm
      · intro m' n' hm' hn'
        cases hm'
        cases hn'
        exact hsmall
    · intro h
      exact ⟨_, rfl, hdiv.mpr ⟨by simpa [Num.nonzero] using h.1, h.2 m n rfl rfl⟩⟩
  · obtain ⟨x, hx⟩ := toFloat_ok hc
    obtain ⟨y, hy⟩ := toFloat_ok hb
    have hsub : c.sub b = .ok (.float (Number.add x (Number.neg y))) := by
      rw [sub_of_not_bothInt hints, hx, hy]
      rfl
    have hdiv := @div_float_ok_iff (Number.add x (Number.neg y)) y b hy
    rw [hsub]
    constructor
    · intro h
      obtain ⟨diff, hdiff, h⟩ := h
      injection hdiff with hdiff
      rw [← hdiff] at h
      exact ⟨hdiv.mp h, fun m n hm hn => absurd ⟨n, m, hn, hm⟩ hints⟩
    · intro h
      exact ⟨_, rfl, hdiv.mpr h.1⟩

theorem Num.Finite.bounded {x : Num} (h : x.Finite) : x.Bounded := by
  intro n hn
  rw [hn] at h
  exact h

/-- Half of the sum of two samples. -/
theorem half_ok {a b : Num} (ha : a.Finite) (hb : b.Finite) :
    exists total half, a.add b = .ok total ∧ total.div (.int 2) = .ok half := by
  have htwo : exists y, (Num.int 2).toFloat = .ok y := by
    apply toFloat_ok
    intro n hn
    injection hn with hn
    rw [← hn]
    decide +kernel
  by_cases hints : BothInt a b
  · obtain ⟨n, m, rfl, rfl⟩ := hints
    have hsum : (n + m).natAbs < floatLimit * (2 : Int).natAbs := by
      have hn : n.natAbs < floatLimit := ha
      have hm : m.natAbs < floatLimit := hb
      rw [show (2 : Int).natAbs = 2 from rfl, Nat.mul_two]
      calc
        (n + m).natAbs ≤ n.natAbs + m.natAbs := Int.natAbs_add_le n m
        _ < floatLimit + floatLimit := Nat.add_lt_add hn hm
    obtain ⟨half, hhalf⟩ := intDiv_ok_iff.mpr ⟨by decide, hsum⟩
    exact ⟨.int (n + m), half, rfl, hhalf⟩
  · obtain ⟨x, hx⟩ := toFloat_ok ha.bounded
    obtain ⟨y, hy⟩ := toFloat_ok hb.bounded
    obtain ⟨two, htwo⟩ := htwo
    obtain ⟨half, hhalf⟩ := (@div_float_ok_iff (Number.add x y) two (.int 2) htwo).mpr rfl
    refine ⟨.float (Number.add x y), half, ?_, hhalf⟩
    rw [add_of_not_bothInt hints, hx, hy]
    rfl

/-- The median of samples is there, and an integer is bounded as they are. -/
theorem median_ok {xs : List Num} (hne : xs ≠ []) (h : forall x, x ∈ xs -> x.Finite) :
    exists m, median xs = .ok m ∧ m.Bounded := by
  have hperm := Sorting.stableSort_perm Num.exact xs
  unfold median
  cases hdata : Sorting.stableSort Num.exact xs with
  | nil =>
      rw [hdata] at hperm
      exact absurd hperm.nil_eq.symm hne
  | cons x rest =>
      simp only
      have hfinite : forall i, ((x :: rest).getD i x).Finite := by
        intro i
        have hmem : (x :: rest).getD i x ∈ x :: rest := by
          rw [List.getD_eq_getElem?_getD]
          cases hget : (x :: rest)[i]? with
          | none => exact List.mem_cons_self
          | some y => exact List.mem_of_getElem? hget
        rw [hdata] at hperm
        exact h _ (hperm.subset hmem)
      split_ifs with hodd
      · exact ⟨_, rfl, (hfinite _).bounded⟩
      · obtain ⟨total, half, htotal, hhalf⟩ := half_ok (hfinite ((x :: rest).length / 2 - 1))
          (hfinite ((x :: rest).length / 2))
        refine ⟨.float half, ?_, fun n hn => by cases hn⟩
        rw [htotal, Fallible.ok_bind, hhalf]
        rfl

/-!
## The interval
-/

/-- The two lists of numbers have medians that can be divided. -/
def Compared (baseline candidate : List Num) : Prop :=
  forall b c, median baseline = .ok b -> median candidate = .ok c -> Divisible b c

theorem changeOf_ok_iff {base cand : List Num} {higher : Bool} (hbase : base ≠ [])
    (hcand : cand ≠ []) (hb : forall x, x ∈ base -> x.Finite)
    (hc : forall x, x ∈ cand -> x.Finite) :
    (exists d, changeOf base cand higher = .ok d) <-> Compared base cand := by
  obtain ⟨b, hmb, hbounded⟩ := median_ok hbase hb
  obtain ⟨c, hmc, hcounded⟩ := median_ok hcand hc
  unfold changeOf
  rw [hmb, Fallible.ok_bind, hmc, Fallible.ok_bind, worse_ok_iff hbounded hcounded]
  constructor
  · intro h b' c' hb' hc'
    rw [hmb] at hb'
    rw [hmc] at hc'
    cases hb'
    cases hc'
    exact h
  · intro h
    exact h b c hmb hmc

/-- The samples and every pair of resamples have medians that can be divided. -/
structure Sampled (g : Generator F) (baseline candidate : List Num) : Prop where
  whole : Compared baseline candidate
  drawn : forall p, p ∈ g.draws baseline.length candidate.length ->
    Compared (choose baseline p.1) (choose candidate p.2)

theorem choose_finite {xs : List Num} {drawn : List Nat} (h : forall x, x ∈ xs -> x.Finite)
    (hdrawn : forall i, i ∈ drawn -> i < xs.length) :
    forall x, x ∈ choose xs drawn -> x.Finite := by
  intro x hx
  obtain ⟨i, hi, rfl⟩ := List.mem_map.mp hx
  rw [List.getD_eq_getElem?_getD, List.getElem?_eq_getElem (hdrawn i hi)]
  exact h _ (List.getElem_mem _)

/-- The interval of samples is there exactly when every median can be divided. -/
theorem interval_ok_iff [PyFloat F] {g : Generator F} {baseline candidate : List (Value F)}
    {base cand : List Num} {higher : Bool} (hbase : numbers baseline = .ok base)
    (hcand : numbers candidate = .ok cand) (hbne : base ≠ []) (hcne : cand ≠ [])
    (hb : forall x, x ∈ base -> x.Finite) (hc : forall x, x ∈ cand -> x.Finite) :
    (exists r, interval g baseline candidate higher = .ok r) <-> Sampled g base cand := by
  have hdrawn : forall p, p ∈ g.draws base.length cand.length ->
      ((exists d, changeOf (choose base p.1) (choose cand p.2) higher = .ok d) <->
        Compared (choose base p.1) (choose cand p.2)) := by
    intro p hp
    obtain ⟨hlen1, hlen2, hin1, hin2⟩ := g.drawn _ _ p hp
    apply changeOf_ok_iff
    · rw [← List.length_pos_iff, choose, List.length_map, hlen1]
      exact List.length_pos_iff.mpr hbne
    · rw [← List.length_pos_iff, choose, List.length_map, hlen2]
      exact List.length_pos_iff.mpr hcne
    · exact choose_finite hb hin1
    · exact choose_finite hc hin2
  have hwhole := @changeOf_ok_iff base cand higher hbne hcne hb hc
  unfold interval
  rw [hbase, Fallible.ok_bind, hcand, Fallible.ok_bind]
  constructor
  · intro h
    obtain ⟨r, h⟩ := h
    obtain ⟨d, hd, h⟩ := Fallible.bind_eq_ok.mp h
    obtain ⟨boot, hboot, _⟩ := Fallible.bind_eq_ok.mp h
    constructor
    · exact hwhole.mp ⟨d, hd⟩
    · intro p hp
      obtain ⟨d', _, hd'⟩ := Fallible.forall₂_mem_left (Fallible.mapM_eq_ok.mp hboot) hp
      exact (hdrawn p hp).mp ⟨d', hd'⟩
  · intro h
    obtain ⟨d, hd⟩ := hwhole.mpr h.whole
    obtain ⟨boot, hboot⟩ := Fallible.exists_mapM_eq_ok
      (f := fun p => changeOf (choose base p.1) (choose cand p.2) higher)
      (fun p hp => (hdrawn p hp).mpr (h.drawn p hp))
    rw [hd, Fallible.ok_bind, hboot, Fallible.ok_bind]
    have hlength : (g.sorted boot).length = 10000 := by
      rw [g.sorted_length, ← (Fallible.mapM_eq_ok.mp hboot).length_eq, g.draws_length]
      rfl
    rw [List.getElem?_eq_getElem (show 250 < (g.sorted boot).length by omega),
      List.getElem?_eq_getElem (show 9749 < (g.sorted boot).length by omega)]
    exact ⟨_, rfl⟩

end Bench
end Dev
end Ostia

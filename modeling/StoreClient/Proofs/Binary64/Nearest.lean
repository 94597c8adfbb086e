import StoreClient.Binary64
import StoreClient.Proofs.Decimal.Exact
import Mathlib.Algebra.Order.Group.Abs
import Mathlib.Order.Monotone.Basic
import Mathlib.Tactic.Linarith

/-! # Nearest binary64 numbers

Without its sign, the bits of a number are its rank among the magnitudes: from one pattern to the
next the magnitude rises by the gap of the first (`Binary64.stepsAt_succ`), up to the infinities and
into the NaNs.  `Binary64.Nearest` is rounding to nearest, ties to even, and settles the magnitude
(`Binary64.Nearest.pattern_eq`).  A number is nearest to its own magnitude, which for a whole one
below `2 ^ 53` is found exactly (`Binary64.natAbs?_eq_some_iff`).  The interval of a number ends
halfway to its two neighbours, so every decimal in it rounds to the number
(`Binary64.nearest_of_contains`), the shortest one too (`Binary64.nearest_shortest`). -/

namespace StoreClient.Binary64

/-! ### Patterns -/

/-- The bits without the sign. -/
def pattern (x : Binary64) : Nat := x.bits.toNat % 2 ^ 63

/-- The pattern of the infinities; the NaNs have the patterns after it. -/
def infinityPattern : Nat := 2047 * 2 ^ 52

/-- The number with a pattern and no sign. -/
def ofPattern (m : Nat) : Binary64 := ⟨UInt64.ofNat m⟩

theorem pattern_ofPattern {m : Nat} (h : m ≤ infinityPattern) : (ofPattern m).pattern = m := by
  have h : m ≤ 2047 * 2 ^ 52 := h
  show m % 2 ^ 64 % 2 ^ 63 = m
  omega

section
variable (x : Binary64)

theorem exponent_eq : x.exponent = x.pattern / 2 ^ 52 := by
  simp only [exponent, pattern, Nat.pow_eq]
  omega

theorem fraction_eq : x.fraction = x.pattern % 2 ^ 52 := by
  simp only [fraction, pattern, Nat.pow_eq]
  omega

theorem pattern_lt : x.pattern < 2 ^ 63 := Nat.mod_lt _ (by decide)

theorem isNaN_eq_false_iff : x.isNaN = false ↔ x.pattern ≤ infinityPattern := by
  have := x.pattern_lt
  rw [isNaN, exponent_eq, fraction_eq, Bool.and_eq_false_iff, beq_eq_false_iff_ne,
    bne_eq_false_iff_eq, infinityPattern]
  omega

theorem isInfinite_iff : x.isInfinite = true ↔ x.pattern = infinityPattern := by
  have := x.pattern_lt
  rw [isInfinite, exponent_eq, fraction_eq, Bool.and_eq_true, beq_iff_eq, beq_iff_eq,
    infinityPattern]
  omega

end

theorem eq_of_pattern {x y : Binary64} (hsign : x.negative = y.negative)
    (h : x.pattern = y.pattern) : x = y := by
  have hx := x.bits.toNat_lt
  have hy := y.bits.toNat_lt
  simp only [negative, decide_eq_decide, Nat.pow_eq] at hsign
  simp only [pattern] at h
  have : x.bits = y.bits := UInt64.toNat_inj.mp (by omega)
  cases x
  cases y
  exact congrArg mk this

/-! ### Magnitudes -/

/-- The gap after the magnitude of a pattern, in steps. -/
def gapAt (m : Nat) : Nat := 2 ^ (m / 2 ^ 52 - 1)

/-- The magnitude of a pattern, in steps. -/
def stepsAt (m : Nat) : Nat :=
  (if m / 2 ^ 52 = 0 then m % 2 ^ 52 else 2 ^ 52 + m % 2 ^ 52) * gapAt m

theorem gap_eq (x : Binary64) : x.gap = gapAt x.pattern := by
  rw [gap, exponent_eq, Nat.pow_eq, gapAt]

theorem steps_eq (x : Binary64) : x.steps = stepsAt x.pattern := by
  rw [steps, significand, gap_eq, exponent_eq, fraction_eq, Nat.pow_eq, stepsAt]

/-- The gap before a magnitude is the one after it, or half of it at a power of two. -/
theorem gapAt_succ (m : Nat) : gapAt (m + 1) =
    if (m + 1) % 2 ^ 52 = 0 ∧ 1 < (m + 1) / 2 ^ 52 then 2 * gapAt m else gapAt m := by
  rw [gapAt, gapAt]
  split
  · next h =>
    rw [show (m + 1) / 2 ^ 52 - 1 = m / 2 ^ 52 - 1 + 1 by omega, Nat.pow_succ, Nat.mul_comm]
  · next h => rw [show (m + 1) / 2 ^ 52 - 1 = m / 2 ^ 52 - 1 by omega]

/-- The next magnitude is one gap away, also where the exponent changes. -/
theorem stepsAt_succ (m : Nat) : stepsAt (m + 1) = stepsAt m + gapAt m := by
  rw [stepsAt, stepsAt, gapAt_succ]
  by_cases hcarry : (m + 1) % 2 ^ 52 = 0
  · have hfraction : m % 2 ^ 52 = 2 ^ 52 - 1 := by omega
    have hnext : (m + 1) / 2 ^ 52 = m / 2 ^ 52 + 1 := by omega
    rw [hcarry, hnext, hfraction, if_neg (Nat.succ_ne_zero _)]
    by_cases hzero : m / 2 ^ 52 = 0
    · rw [if_neg (by omega), if_pos hzero]
      omega
    · rw [if_pos (by omega), if_neg hzero]
      omega
  · have hsame : (m + 1) / 2 ^ 52 = m / 2 ^ 52 := by omega
    have hfraction : (m + 1) % 2 ^ 52 = m % 2 ^ 52 + 1 := by omega
    rw [if_neg (show ¬ ((m + 1) % 2 ^ 52 = 0 ∧ _) from fun h => hcarry h.1), hsame, hfraction,
      ← Nat.add_one_mul]
    congr 1
    split
    · rfl
    · rw [Nat.add_assoc]

theorem gapAt_pos (m : Nat) : 0 < gapAt m := Nat.two_pow_pos _

theorem strictMono_stepsAt : StrictMono stepsAt :=
  strictMono_nat_of_lt_succ fun m => stepsAt_succ m ▸ Nat.lt_add_of_pos_right (gapAt_pos m)

def oneSteps : Nat := 2 ^ 1074

theorem oneSteps_pos : 0 < oneSteps := by
  unfold oneSteps
  positivity

theorem two_pow_eq_oneSteps : Nat.pow 2 1074 = oneSteps := by
  unfold oneSteps
  generalize 1074 = k
  exact Nat.pow_eq

def magnitudeAt (m : Nat) : ℚ := stepsAt m / oneSteps

/-- The magnitude of a number; that of the infinities is the next power of two. -/
def magnitude (x : Binary64) : ℚ := x.steps / oneSteps

theorem magnitude_eq (x : Binary64) : x.magnitude = magnitudeAt x.pattern := by
  rw [magnitude, steps_eq, magnitudeAt]

theorem stepsAt_zero : stepsAt 0 = 0 := rfl

theorem steps_eq_zero_iff {x : Binary64} : x.steps = 0 ↔ x.pattern = 0 := by
  rw [steps_eq]
  exact strictMono_stepsAt.injective.eq_iff' stepsAt_zero

theorem magnitude_nonneg (x : Binary64) : 0 ≤ x.magnitude :=
  div_nonneg (Nat.cast_nonneg _) (Nat.cast_nonneg _)

theorem magnitude_eq_natCast_iff {x : Binary64} {n : Nat} :
    x.magnitude = n ↔ x.steps = n * oneSteps := by
  rw [magnitude, div_eq_iff (Nat.cast_pos.mpr oneSteps_pos).ne']
  exact_mod_cast Iff.rfl

theorem magnitude_eq_zero {x : Binary64} (h : x.steps = 0) : x.magnitude = (0 : Nat) :=
  magnitude_eq_natCast_iff.mpr (h.trans (Nat.zero_mul _).symm)

theorem strictMono_magnitudeAt : StrictMono magnitudeAt := fun _ _ h =>
  div_lt_div_of_pos_right (Nat.cast_lt.mpr (strictMono_stepsAt h)) (Nat.cast_pos.mpr oneSteps_pos)

theorem magnitude_lt_iff {x y : Binary64} : x.magnitude < y.magnitude ↔ x.pattern < y.pattern := by
  rw [magnitude_eq, magnitude_eq, strictMono_magnitudeAt.lt_iff_lt]

/-! ### Rounding -/

/-- A number is nearest to a magnitude; its significand is even if there is another as near. -/
structure Nearest (q : ℚ) (x : Binary64) : Prop where
  isNumber : x.isNaN = false
  near : ∀ y : Binary64, y.isNaN = false → |x.magnitude - q| ≤ |y.magnitude - q|
  even : ∀ y : Binary64, y.isNaN = false → y.magnitude ≠ x.magnitude →
    |y.magnitude - q| = |x.magnitude - q| → x.significand % 2 = 0

theorem significand_mod_two (x : Binary64) : x.significand % 2 = x.pattern % 2 := by
  rw [significand, exponent_eq, fraction_eq, Nat.pow_eq]
  split <;> omega

variable {q : ℚ} {x y : Binary64}

/-- Two numbers as near to one magnitude are neighbours, or something between is nearer; of
neighbours only one is even. -/
theorem Nearest.not_lt (hx : Nearest q x) (hy : Nearest q y) : ¬ x.pattern < y.pattern := by
  intro hlt
  have hmag := magnitude_lt_iff.mpr hlt
  have hsame : |x.magnitude - q| = |y.magnitude - q| :=
    le_antisymm (hx.near y hy.isNumber) (hy.near x hx.isNumber)
  have hmid : x.magnitude + y.magnitude = 2 * q := by
    rcases abs_eq_abs.mp hsame with h | h <;> linarith
  have hnext : y.pattern = x.pattern + 1 := by
    by_contra hgap
    have hle := (isNaN_eq_false_iff y).mp hy.isNumber
    have hpattern : (ofPattern (x.pattern + 1)).pattern = x.pattern + 1 :=
      pattern_ofPattern (by omega)
    have hnear := hx.near (ofPattern (x.pattern + 1)) ((isNaN_eq_false_iff _).mpr (by omega))
    have hlow : x.magnitude < (ofPattern (x.pattern + 1)).magnitude :=
      magnitude_lt_iff.mpr (by omega)
    have hhigh : (ofPattern (x.pattern + 1)).magnitude < y.magnitude :=
      magnitude_lt_iff.mpr (by omega)
    refine absurd hnear (not_le.mpr ?_)
    rw [abs_of_neg (by linarith : x.magnitude - q < 0), abs_lt]
    constructor <;> linarith
  have hxeven := hx.even y hy.isNumber hmag.ne' hsame.symm
  have hyeven := hy.even x hx.isNumber hmag.ne hsame
  rw [significand_mod_two] at hxeven hyeven
  omega

theorem Nearest.pattern_eq (hx : Nearest q x) (hy : Nearest q y) : x.pattern = y.pattern :=
  Nat.le_antisymm (Nat.not_lt.mp (hy.not_lt hx)) (Nat.not_lt.mp (hx.not_lt hy))

theorem nearest_magnitude (hx : x.isNaN = false) : Nearest x.magnitude x where
  isNumber := hx
  near y _ := by
    rw [sub_self, abs_zero]
    exact abs_nonneg _
  even y _ hne h := by
    rw [sub_self, abs_zero, abs_eq_zero, sub_eq_zero] at h
    exact absurd h hne

/-- Whatever lies no further than halfway to the other numbers, and nearer still if the significand
is odd, rounds to the number. -/
theorem nearest_of_halfway (hx : x.isNaN = false)
    (hlow : ∀ y : Binary64, y.magnitude < x.magnitude →
      y.magnitude + x.magnitude < 2 * q ∨
        x.significand % 2 = 0 ∧ y.magnitude + x.magnitude ≤ 2 * q)
    (hhigh : ∀ y : Binary64, x.magnitude < y.magnitude →
      2 * q < x.magnitude + y.magnitude ∨
        x.significand % 2 = 0 ∧ 2 * q ≤ x.magnitude + y.magnitude) : Nearest q x where
  isNumber := hx
  near y _ := by
    rcases lt_trichotomy y.magnitude x.magnitude with h | h | h
    · have hmid : y.magnitude + x.magnitude ≤ 2 * q := by
        rcases hlow y h with h | h
        · exact h.le
        · exact h.2
      rw [abs_of_neg (by linarith : y.magnitude - q < 0), abs_le]
      constructor <;> linarith
    · rw [h]
    · have hmid : 2 * q ≤ x.magnitude + y.magnitude := by
        rcases hhigh y h with h | h
        · exact h.le
        · exact h.2
      rw [abs_of_pos (by linarith : 0 < y.magnitude - q), abs_le]
      constructor <;> linarith
  even y _ hne hsame := by
    have hmid : x.magnitude + y.magnitude = 2 * q := by
      rcases abs_eq_abs.mp hsame with h | h
      · exact absurd (by linarith) hne
      · linarith
    rcases lt_or_gt_of_ne hne with h | h
    · rcases hlow y h with h | h
      · linarith
      · exact h.1
    · rcases hhigh y h with h | h
      · linarith
      · exact h.1

/-! ### Whole numbers -/

theorem natAbs?_eq_some_iff {n : Nat} : x.natAbs? = some n ↔ x.magnitude = n ∧ n < 2 ^ 53 := by
  simp only [natAbs?, two_pow_eq_oneSteps]
  rw [magnitude_eq_natCast_iff]
  split
  · next h =>
    have hsteps := Nat.div_mul_cancel (Nat.dvd_of_mod_eq_zero h.1)
    rw [Option.some.injEq]
    constructor
    · rintro rfl
      exact ⟨hsteps.symm, h.2⟩
    · rintro ⟨h, -⟩
      rw [h, Nat.mul_div_cancel _ oneSteps_pos]
  · next h =>
    refine iff_of_false (by simp) ?_
    rintro ⟨hsteps, hlt⟩
    refine h ⟨?_, ?_⟩
    · rw [hsteps, Nat.mul_mod_left]
    · rwa [hsteps, Nat.mul_div_cancel _ oneSteps_pos]

theorem pattern_pos (h : x.natAbs? = none) : 0 < x.pattern := by
  refine Nat.pos_of_ne_zero fun hpattern => ?_
  have hmag := magnitude_eq_zero (steps_eq_zero_iff.mpr hpattern)
  rw [natAbs?_eq_some_iff.mpr ⟨hmag, by decide⟩] at h
  cases h

def value? (x : Binary64) : Option ℚ :=
  if x.isNaN || x.isInfinite then none
  else some (if x.negative then -x.magnitude else x.magnitude)

def negativeZero : Binary64 := ⟨0x8000000000000000⟩

/-- A number with an integer for its value is finite, and has its magnitude and its sign; a zero can
have either. -/
theorem of_value?_eq_int {z : Int} (h : x.value? = some (z : ℚ)) :
    x.isNaN = false ∧ x.isInfinite = false ∧ x.magnitude = (z.natAbs : ℚ) ∧
      (if x.negative then -(z.natAbs : Int) else z.natAbs) = z := by
  rw [value?, Option.ite_none_left_eq_some, Bool.or_eq_true, not_or, Bool.not_eq_true,
    Bool.not_eq_true, Option.some.injEq] at h
  obtain ⟨⟨hnumber, hfinite⟩, hvalue⟩ := h
  have hmag : x.magnitude = (z.natAbs : ℚ) := by
    rw [Nat.cast_natAbs, Int.cast_abs, ← hvalue]
    split
    · rw [abs_neg, abs_of_nonneg x.magnitude_nonneg]
    · rw [abs_of_nonneg x.magnitude_nonneg]
  refine ⟨hnumber, hfinite, hmag, ?_⟩
  have hcast : ((z.natAbs : Int) : ℚ) = (z.natAbs : ℚ) := Int.cast_natCast _
  rw [← Int.cast_inj (α := ℚ), ← hvalue, hmag, apply_ite (Int.cast (R := ℚ)), Int.cast_neg, hcast]

theorem eq_negativeZero (hneg : x.negative = true) (hsteps : x.steps = 0) : x = negativeZero :=
  eq_of_pattern hneg (steps_eq_zero_iff.mp hsteps)

/-! ### Intervals -/

theorem den_interval (x : Binary64) : x.interval.den = 4 * oneSteps := by
  have hquarters {j k : Nat} (h : j = k + 2) : Nat.pow 2 j = 4 * 2 ^ k := by
    rw [Nat.pow_eq, h, Nat.pow_add, Nat.mul_comm]
  unfold interval oneSteps
  generalize hj : 1076 = j
  generalize hk : 1074 = k
  exact hquarters (by omega)

theorem den_interval_pos (x : Binary64) : 0 < x.interval.den :=
  den_interval x ▸ Nat.mul_pos (by decide) oneSteps_pos

theorem value_interval (x : Binary64) : x.interval.value = 4 * stepsAt x.pattern := by
  rw [interval, steps_eq]

theorem low_interval {m : Nat} (hm : x.pattern = m + 1) :
    x.interval.low = 2 * (stepsAt m + stepsAt (m + 1)) := by
  have hsteps : x.significand * gapAt (m + 1) = stepsAt m + gapAt m := by
    rw [← hm, ← gap_eq, ← stepsAt_succ, ← hm, ← steps_eq]
    rfl
  show (4 * x.significand - if x.fraction = 0 ∧ 1 < x.exponent then 1 else 2) * x.gap = _
  rw [fraction_eq, exponent_eq, gap_eq, hm, Nat.sub_mul, Nat.mul_assoc, hsteps, stepsAt_succ,
    gapAt_succ]
  split <;> omega

theorem high_interval (x : Binary64) :
    x.interval.high = 2 * (stepsAt x.pattern + stepsAt (x.pattern + 1)) := by
  have hsteps : x.significand * x.gap = stepsAt x.pattern := steps_eq x
  show (4 * x.significand + 2) * x.gap = _
  rw [Nat.add_mul, Nat.mul_assoc, hsteps, stepsAt_succ, gap_eq]
  omega

theorem closed_interval (x : Binary64) : x.interval.closed = true ↔ x.significand % 2 = 0 :=
  beq_iff_eq

/-- In quarter steps, twice the sum of two magnitudes is the midpoint between them. -/
theorem midpoint_eq (m n : Nat) :
    ((2 * (stepsAt m + stepsAt n) : Nat) : ℚ) / (4 * oneSteps : Nat) =
      (magnitudeAt m + magnitudeAt n) / 2 := by
  have hone : (0 : ℚ) < oneSteps := Nat.cast_pos.mpr oneSteps_pos
  rw [magnitudeAt, magnitudeAt, ← add_div, div_div, Nat.cast_mul, Nat.cast_mul, Nat.cast_add,
    div_eq_div_iff (by positivity) (by positivity)]
  ring

/-- A decimal in the interval of a number rounds to it. -/
theorem nearest_of_contains (hx : x.isNaN = false) (hpos : 0 < x.pattern) {d : Decimal.Scaled}
    (h : x.interval.contains d = true) : Nearest d.value x := by
  obtain ⟨m, hm⟩ := Nat.exists_eq_add_one_of_ne_zero hpos.ne'
  rw [Decimal.Interval.contains_iff x.den_interval_pos, low_interval hm, high_interval,
    den_interval, midpoint_eq, midpoint_eq, closed_interval, ← hm, ← magnitude_eq] at h
  obtain ⟨hlow, hhigh⟩ := h
  refine nearest_of_halfway hx (fun y hy => ?_) (fun y hy => ?_)
  · have hle : y.magnitude ≤ magnitudeAt m := by
      rw [magnitude_lt_iff] at hy
      rw [magnitude_eq]
      exact strictMono_magnitudeAt.monotone (by omega)
    rcases hlow with h | ⟨heven, h⟩
    · exact .inl (by linarith)
    · exact .inr ⟨heven, by linarith⟩
  · have hle : magnitudeAt (x.pattern + 1) ≤ y.magnitude := by
      rw [magnitude_lt_iff] at hy
      rw [magnitude_eq]
      exact strictMono_magnitudeAt.monotone (by omega)
    rcases hhigh with h | ⟨heven, h⟩
    · exact .inl (by linarith)
    · exact .inr ⟨heven, by linarith⟩

/-- The shortest decimal of a number rounds to it. -/
theorem nearest_shortest (hx : x.isNaN = false) (hpos : 0 < x.pattern) :
    Nearest x.shortest.value x := by
  obtain ⟨m, hm⟩ := Nat.exists_eq_add_one_of_ne_zero hpos.ne'
  have hlow : stepsAt m < stepsAt (m + 1) := strictMono_stepsAt (Nat.lt_add_one m)
  have hhigh : stepsAt x.pattern < stepsAt (x.pattern + 1) :=
    strictMono_stepsAt (Nat.lt_add_one x.pattern)
  have hsteps : 0 < stepsAt x.pattern := hm ▸ Nat.zero_lt_of_lt hlow
  -- ten to the power of 1074 is a multiple of two to that power, so every step lies on that grid
  have hgrid : x.interval.value * 10 ^ 1074 = x.interval.den * (stepsAt x.pattern * 5 ^ 1074) := by
    rw [value_interval, den_interval, oneSteps]
    generalize 1074 = k
    rw [Nat.mul_pow 2 5 k]
    ac_rfl
  have htop : 0 ≤ x.interval.top + (1074 : Nat) := by
    refine Decimal.Interval.top_nonneg ?_ (by decide) ?_
    · rw [value_interval]
      omega
    · rw [hgrid]
      exact Nat.le_mul_of_pos_right _ (by positivity)
  refine nearest_of_contains hx hpos
    (Decimal.Interval.contains_shortest x.den_interval_pos ?_ ?_ ⟨_, hgrid⟩ htop)
  · rw [low_interval hm, value_interval, hm]
    omega
  · rw [high_interval, value_interval]
    omega

example : (shortest ⟨0x3FB999999999999A⟩).positional = "0.1".toList := by decide +kernel

end StoreClient.Binary64

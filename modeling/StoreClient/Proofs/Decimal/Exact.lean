import StoreClient.Decimal.Shortest
import StoreClient.Proofs.Decimal.Numerals
import Mathlib.Algebra.Order.Field.Power
import Mathlib.Algebra.Order.Ring.Rat
import Mathlib.Data.List.TakeWhile
import Mathlib.Tactic.FieldSimp
import Mathlib.Tactic.Positivity
import Mathlib.Tactic.Ring

/-! # Exact decimals

A decimal text stands for one rational number (`Decimal.rational?`), and the positional text of a
scaled decimal stands for that decimal (`Decimal.rational?_positional`).  The test of an interval
compares the decimal with the ends as rational numbers (`Decimal.Interval.contains_iff`); whatever
the search stops at passes the test, provided that the value itself lies on the last grid
(`Decimal.Interval.contains_shortest`). -/

namespace StoreClient.Decimal

/-! ### Decimal texts -/

/-- The number that an unsigned decimal text stands for: digits, and more digits after a point if
there is one. -/
def rational? (cs : List Char) : Option ℚ :=
  let whole := cs.takeWhile Char.isDigit
  match cs.dropWhile Char.isDigit with
  | [] => if whole = [] then none else some (value whole)
  | '.' :: places =>
    if whole = [] ∨ places = [] ∨ places.all Char.isDigit = false then none
    else some (value (whole ++ places) / 10 ^ places.length)
  | _ => none

theorem rational?_of_digits {cs : List Char} (hne : cs ≠ []) (h : cs.all Char.isDigit = true) :
    rational? cs = some (value cs : ℚ) := by
  have hall := List.all_eq_true.mp h
  have htake : cs.takeWhile Char.isDigit = cs := List.takeWhile_eq_self_iff.mpr hall
  have hdrop : cs.dropWhile Char.isDigit = [] := List.dropWhile_eq_nil_iff.mpr hall
  rw [rational?, hdrop, htake]
  exact if_neg hne

theorem rational?_of_point {whole places : List Char} (hw : whole ≠ [])
    (hwhole : whole.all Char.isDigit = true) (hp : places ≠ [])
    (hplaces : places.all Char.isDigit = true) :
    rational? (whole ++ '.' :: places) =
      some (value (whole ++ places) / 10 ^ places.length : ℚ) := by
  have hall := List.all_eq_true.mp hwhole
  have htake : (whole ++ '.' :: places).takeWhile Char.isDigit = whole := by
    rw [List.takeWhile_append_of_pos hall, List.takeWhile_cons_of_neg (by decide), List.append_nil]
  have hdrop : (whole ++ '.' :: places).dropWhile Char.isDigit = '.' :: places := by
    rw [List.dropWhile_append_of_pos hall, List.dropWhile_cons_of_neg (by decide)]
  rw [rational?, hdrop, htake]
  exact if_neg (by simp [hw, hp, hplaces])

/-- Digits with a point before the last `places` of them. -/
theorem rational?_pointed {cs : List Char} (h : cs.all Char.isDigit = true) {places : Nat}
    (hpos : 0 < places) (hlong : places < cs.length) :
    rational? (cs.take (cs.length - places) ++ '.' :: cs.drop (cs.length - places)) =
      some (value cs / 10 ^ places : ℚ) := by
  have hwhole : (cs.take (cs.length - places)).length = cs.length - places := by
    rw [List.length_take]
    omega
  have hplaces : (cs.drop (cs.length - places)).length = places := by
    rw [List.length_drop]
    omega
  have hall : (cs.take (cs.length - places)).all Char.isDigit = true ∧
      (cs.drop (cs.length - places)).all Char.isDigit = true := by
    rwa [← Bool.and_eq_true, ← List.all_append, List.take_append_drop]
  rw [rational?_of_point (List.ne_nil_of_length_pos (by omega)) hall.1
    (List.ne_nil_of_length_pos (by omega)) hall.2, List.take_append_drop, hplaces]

theorem chars_of_rational? {cs : List Char} {q : ℚ} (h : rational? cs = some q) :
    (∀ c ∈ cs, c.isDigit = true ∨ c = '.') ∧ ∃ c, cs.head? = some c ∧ c.isDigit = true := by
  have hcs : cs = cs.takeWhile Char.isDigit ++ cs.dropWhile Char.isDigit :=
    (List.takeWhile_append_dropWhile).symm
  have hwhole : ∀ c ∈ cs.takeWhile Char.isDigit, c.isDigit = true := fun c => List.mem_takeWhile_imp
  have hhead (hne : cs.takeWhile Char.isDigit ≠ []) :
      ∃ c, cs.head? = some c ∧ c.isDigit = true := by
    obtain ⟨c, rest, hc⟩ := List.exists_cons_of_ne_nil hne
    refine ⟨c, ?_, hwhole c (hc ▸ List.mem_cons_self)⟩
    rw [hcs, hc, List.cons_append, List.head?_cons]
  simp only [rational?] at h
  split at h
  · next hrest =>
    split at h
    · cases h
    · next hne =>
      refine ⟨fun c hc => .inl (hwhole c ?_), hhead hne⟩
      rwa [hcs, hrest, List.append_nil] at hc
  · next places hrest =>
    split at h
    · cases h
    · next hne =>
      rw [not_or, not_or, Bool.not_eq_false, List.all_eq_true] at hne
      refine ⟨fun c hc => ?_, hhead hne.1⟩
      rw [hcs, hrest, List.mem_append, List.mem_cons] at hc
      rcases hc with hc | rfl | hc
      · exact .inl (hwhole c hc)
      · exact .inr rfl
      · exact .inl (hne.2.2 c hc)
  · cases h

/-! ### Scaled decimals -/

def Scaled.value (d : Scaled) : ℚ := d.units * 10 ^ d.place

/-- Ten to a place, with a whole number of tens above and below the line. -/
theorem ten_zpow_mul (place : Int) :
    (10 : ℚ) ^ place * 10 ^ (-place).toNat = 10 ^ place.toNat := by
  rw [← zpow_natCast, ← zpow_natCast, ← zpow_add₀ (by norm_num)]
  congr 1
  omega

theorem Scaled.value_of_nonneg {d : Scaled} (h : 0 ≤ d.place) :
    d.value = (d.units * 10 ^ d.place.toNat : Nat) := by
  have htens := ten_zpow_mul d.place
  rw [Int.toNat_eq_zero.mpr (by omega : -d.place ≤ 0), pow_zero, mul_one] at htens
  rw [value, htens]
  push_cast
  rfl

theorem Scaled.value_of_nonpos {d : Scaled} (h : d.place ≤ 0) :
    d.value = (d.units / 10 ^ (-d.place).toNat : ℚ) := by
  have htens := ten_zpow_mul d.place
  rw [Int.toNat_eq_zero.mpr h, pow_zero] at htens
  rw [value, eq_div_iff (by positivity), mul_assoc, htens, mul_one]

theorem rational?_digits (n : Nat) : rational? (digits n) = some (n : ℚ) := by
  rw [rational?_of_digits (numeral_digits n).ne_nil (isDigit_digits n), (numeral_digits n).value_eq]

/-- The positional text of a decimal stands for it. -/
theorem rational?_positional (d : Scaled) : rational? d.positional = some d.value := by
  simp only [Scaled.positional]
  split
  · next hplace =>
    have hdigit : (digits d.units ++ List.replicate d.place.toNat '0').all Char.isDigit = true := by
      rw [List.all_append, isDigit_digits, List.all_replicate]
      split <;> decide
    have hnumeral := numeral_digits d.units
    rw [rational?_of_digits (List.append_ne_nil_of_left_ne_nil hnumeral.ne_nil _) hdigit,
      value_append, value_replicate_zero, hnumeral.value_eq, List.length_replicate, Nat.add_zero,
      Scaled.value_of_nonneg hplace]
  · next hplace =>
    -- the zeros in front leave a digit before the point, whatever the number of places
    have hlong : (-d.place).toNat < (padded ((-d.place).toNat + 1) d.units).length := by
      rw [padded, List.length_append, List.length_replicate]
      omega
    rw [rational?_pointed (isDigit_padded _ _) (by omega) hlong, value_padded,
      Scaled.value_of_nonpos (by omega)]

/-! ### Intervals -/

namespace Interval
variable {i : Interval}

/-- In units of a place, a number over `den` and a decimal are multiplied by the same. -/
theorem units_eq (hden : 0 < i.den) (n : Nat) (d : Scaled) : ∃ k : ℚ, 0 < k ∧
    ((n * Nat.pow 10 (-d.place).toNat : Nat) : ℚ) = n / i.den * k ∧
    ((d.units * (i.den * Nat.pow 10 d.place.toNat) : Nat) : ℚ) = d.value * k := by
  have hden : (0 : ℚ) < i.den := Nat.cast_pos.mpr hden
  have htens := ten_zpow_mul d.place
  refine ⟨i.den * 10 ^ (-d.place).toNat, by positivity, ?_, ?_⟩
  · rw [Nat.pow_eq]
    push_cast
    field_simp
  · rw [Nat.pow_eq, Scaled.value]
    push_cast
    rw [← htens]
    ring

theorem le_units_iff (hden : 0 < i.den) (n : Nat) (d : Scaled) :
    n * Nat.pow 10 (-d.place).toNat ≤ d.units * (i.den * Nat.pow 10 d.place.toNat) ↔
      (n / i.den : ℚ) ≤ d.value := by
  obtain ⟨k, hk, hn, hd⟩ := units_eq hden n d
  rw [← Nat.cast_le (α := ℚ), hn, hd, mul_le_mul_iff_of_pos_right hk]

theorem units_le_iff (hden : 0 < i.den) (n : Nat) (d : Scaled) :
    d.units * (i.den * Nat.pow 10 d.place.toNat) ≤ n * Nat.pow 10 (-d.place).toNat ↔
      d.value ≤ (n / i.den : ℚ) := by
  obtain ⟨k, hk, hn, hd⟩ := units_eq hden n d
  rw [← Nat.cast_le (α := ℚ), hn, hd, mul_le_mul_iff_of_pos_right hk]

theorem contains_iff (hden : 0 < i.den) (d : Scaled) : i.contains d = true ↔
    ((i.low / i.den : ℚ) < d.value ∨ i.closed = true ∧ (i.low / i.den : ℚ) = d.value) ∧
    (d.value < (i.high / i.den : ℚ) ∨ i.closed = true ∧ d.value = (i.high / i.den : ℚ)) := by
  simp only [contains]
  split
  · next hclosed =>
    rw [Bool.and_eq_true, decide_eq_true_iff, decide_eq_true_iff]
    simp only [unitsOver]
    rw [le_units_iff hden, units_le_iff hden, le_iff_lt_or_eq, le_iff_lt_or_eq]
    simp only [hclosed, true_and]
  · next hclosed =>
    rw [Bool.and_eq_true, decide_eq_true_iff, decide_eq_true_iff]
    simp only [unitsOver]
    rw [← not_le, units_le_iff hden, ← not_le, le_units_iff hden, not_le, not_le]
    simp only [hclosed, Bool.false_eq_true, false_and, or_false]

/-! ### The search -/

theorem contains_of_hit? {place : Int} {d : Scaled} (h : i.hit? place = some d) :
    i.contains d = true := by
  simp only [hit?] at h
  split at h
  · next hdown hup =>
    cases h
    split
    · exact hup
    · exact hdown
  · next hdown hup =>
    cases h
    exact hdown
  · next hdown hup =>
    cases h
    exact hup
  · cases h

/-- The search ends within the interval if its last grid has a point there, just below the
value. -/
theorem contains_search (place : Int) (finer : Nat)
    (hlast : i.contains ⟨i.below (place - finer), place - finer⟩ = true) :
    i.contains (i.search place finer) = true := by
  induction finer generalizing place with
  | zero =>
    rw [Int.ofNat_zero, Int.sub_zero] at hlast
    exact hlast
  | succ finer ih =>
    rw [search]
    split
    · next d hd => exact contains_of_hit? hd
    · refine ih (place - 1) ?_
      rwa [show place - 1 - (finer : Int) = place - (finer + 1 : Nat) by omega]

theorem below_eq (hden : 0 < i.den) {places : Nat} (hgrid : i.den ∣ i.value * 10 ^ places) :
    (⟨i.below (-places), -places⟩ : Scaled).value = (i.value / i.den : ℚ) := by
  obtain ⟨units, hunits⟩ := hgrid
  have hbelow : i.below (-places) = units := by
    simp only [below, unitsOver, Nat.pow_eq, Int.neg_neg, Int.toNat_natCast]
    rw [hunits, Int.toNat_eq_zero.mpr (by omega), Nat.pow_zero, Nat.mul_one,
      Nat.mul_div_cancel_left _ hden]
  have hden : (0 : ℚ) < i.den := Nat.cast_pos.mpr hden
  have hunits : (i.value : ℚ) * 10 ^ places = i.den * units := by exact_mod_cast hunits
  rw [hbelow, Scaled.value, zpow_neg, zpow_natCast, ← div_eq_mul_inv,
    div_eq_div_iff (by positivity) (by positivity), hunits, mul_comm]

theorem contains_shortest (hden : 0 < i.den) (hlow : i.low < i.value) (hhigh : i.value < i.high)
    {places : Nat} (hgrid : i.den ∣ i.value * 10 ^ places) (htop : 0 ≤ i.top + places) :
    i.contains (i.shortest places) = true := by
  have hend : i.top - ((i.top + places).toNat : Int) = -places := by omega
  have hden' : (0 : ℚ) < i.den := Nat.cast_pos.mpr hden
  rw [shortest]
  refine contains_search _ _ ?_
  rw [hend, contains_iff hden, below_eq hden hgrid, div_lt_div_iff_of_pos_right hden',
    div_lt_div_iff_of_pos_right hden', Nat.cast_lt, Nat.cast_lt]
  exact ⟨.inl hlow, .inl hhigh⟩

/-- A value of at least `10 ^ -places` has its leading digit on one of the grids. -/
theorem top_nonneg (hvalue : 0 < i.value) {places : Nat} (hplaces : 0 < places)
    (h : i.den ≤ i.value * 10 ^ places) : 0 ≤ i.top + places := by
  unfold top
  split
  · omega
  · have hlt : (i.den - 1) / i.value < 10 ^ places := by
      rw [Nat.div_lt_iff_lt_mul hvalue, Nat.mul_comm]
      have : 0 < i.value * 10 ^ places := by positivity
      omega
    have : (digits ((i.den - 1) / i.value)).length ≤ places :=
      (Nat.length_toDigits_le_iff (by decide) hplaces).mpr hlt
    omega

end Interval
end StoreClient.Decimal

import StoreClient.Bytes
import StoreClient.Decimal
import Mathlib.Algebra.Order.Ring.Nat
import Mathlib.Data.List.Basic
import Mathlib.Data.List.Induction

/-! # Numerals

What `Decimal.digits` writes is the only text of digits with that value and no zero in front
(`Decimal.numeral_iff`); with a sign, the same holds of the integers (`Decimal.written_iff`).  Zeros
in front change no value and can be taken away again (`Decimal.value_padded`,
`Decimal.stripZeros_padded`), and digit strings of one length are ordered byte by byte as the numbers
that they write (`Decimal.compare_ofAscii`). -/

namespace StoreClient.Decimal

/-! ### Digits and values -/

theorem isDigit_digits (n : Nat) : (digits n).all Char.isDigit = true :=
  List.all_eq_true.mpr fun _ h => Nat.isDigit_of_mem_toDigits (by decide) (by decide) h

theorem value_append (as bs : List Char) :
    value (as ++ bs) = value as * 10 ^ bs.length + value bs := by
  simp only [value]
  rw [Nat.ofDigitChars_append, Nat.ofDigitChars_eq_ofDigitChars_zero, Nat.mul_comm]

theorem value_singleton (c : Char) : value [c] = c.toNat - 48 := by
  rw [value, Nat.ofDigitChars_cons, Nat.ofDigitChars_nil, Nat.mul_zero, Nat.zero_add]
  rfl

theorem value_cons (c : Char) (cs : List Char) :
    value (c :: cs) = (c.toNat - 48) * 10 ^ cs.length + value cs := by
  rw [← List.singleton_append, value_append, value_singleton]

theorem value_replicate_zero (k : Nat) : value (List.replicate k '0') = 0 :=
  Nat.ofDigitChars_replicate_zero

theorem digit_cases {c : Char} (h : c.isDigit = true) :
    c.toNat - 48 < 10 ∧ (c.toNat - 48).digitChar = c := by
  obtain ⟨hlow, hhigh⟩ := Char.isDigit_iff_toNat.mp h
  have hlow : 48 ≤ c.toNat := hlow
  have hhigh : c.toNat ≤ 57 := hhigh
  have hlt : c.toNat - 48 < 10 := by omega
  refine ⟨hlt, ?_⟩
  rw [← Char.toNat_inj, Nat.toNat_digitChar_of_lt_ten hlt]
  omega

theorem value_lt {cs : List Char} (h : cs.all Char.isDigit = true) : value cs < 10 ^ cs.length := by
  induction cs with
  | nil => decide
  | cons c cs ih =>
    rw [List.all_cons, Bool.and_eq_true] at h
    have hc := (digit_cases h.1).1
    have hcs := ih h.2
    rw [value_cons, List.length_cons, Nat.pow_succ, Nat.mul_comm (10 ^ _)]
    calc (c.toNat - 48) * 10 ^ cs.length + value cs
        < (c.toNat - 48) * 10 ^ cs.length + 10 ^ cs.length := Nat.add_lt_add_left hcs _
      _ = (c.toNat - 48 + 1) * 10 ^ cs.length := (Nat.succ_mul _ _).symm
      _ ≤ 10 * 10 ^ cs.length := Nat.mul_le_mul_right _ hc

/-! ### The one text of a number -/

/-- Digits that write a number, with no zero in front. -/
structure Numeral (n : Nat) (cs : List Char) : Prop where
  ne_nil : cs ≠ []
  isDigit : cs.all Char.isDigit = true
  leading : cs.head? = some '0' → cs = ['0']
  value_eq : value cs = n

theorem head?_digits {n : Nat} (h : (digits n).head? = some '0') : digits n = ['0'] := by
  induction n using Nat.strongRecOn with
  | ind n ih =>
    rw [digits] at h ⊢
    by_cases h10 : n < 10
    · rw [Nat.toDigits_of_lt_base h10] at h ⊢
      rw [Option.some.inj h]
    · rw [Nat.toDigits_of_base_le (by decide) (Nat.not_lt.mp h10),
        List.head?_append_of_ne_nil _ Nat.toDigits_ne_nil] at h
      have hquot : n / 10 = 0 := calc
        n / 10 = value (digits (n / 10)) := Nat.ofDigitChars_ten_toDigits.symm
        _ = 0 := congrArg value (ih (n / 10) (by omega) h)
      omega

theorem numeral_digits (n : Nat) : Numeral n (digits n) where
  ne_nil := Nat.toDigits_ne_nil
  isDigit := isDigit_digits n
  leading := head?_digits
  value_eq := Nat.ofDigitChars_ten_toDigits

theorem digits_value {cs : List Char} (hne : cs ≠ []) (hdigit : cs.all Char.isDigit = true)
    (hlead : cs.head? = some '0' → cs = ['0']) : digits (value cs) = cs := by
  induction cs using List.reverseRecOn with
  | nil => exact absurd rfl hne
  | append_singleton front c ih =>
    rw [List.all_append, Bool.and_eq_true, List.all_cons, Bool.and_eq_true] at hdigit
    obtain ⟨hlt, hc⟩ := digit_cases hdigit.2.1
    have hval : value (front ++ [c]) = 10 * value front + (c.toNat - 48) := by
      rw [value_append, value_singleton, List.length_singleton, Nat.pow_one, Nat.mul_comm]
    by_cases hfront : front = []
    · rw [hfront, List.nil_append, value_singleton, digits, Nat.toDigits_of_lt_base hlt, hc]
    · -- a zero in front of all but the last digit would be one in front of all
      have hlead' : front.head? ≠ some '0' := by
        intro h
        have hall := hlead (by rw [List.head?_append_of_ne_nil _ hfront, h])
        have hlen := congrArg List.length hall
        have := List.length_pos_iff.mpr hfront
        rw [List.length_append, List.length_singleton, List.length_singleton] at hlen
        omega
      have hquot := ih hfront hdigit.1 (fun h => absurd h hlead')
      have hpos : value front ≠ 0 := by
        intro h
        rw [h, digits, Nat.toDigits_zero] at hquot
        exact hlead' (hquot ▸ rfl)
      rw [hval, digits, Nat.toDigits_of_base_le (by decide) (by omega)]
      have hdiv : (10 * value front + (c.toNat - 48)) / 10 = value front := by omega
      have hmod : (10 * value front + (c.toNat - 48)) % 10 = c.toNat - 48 := by omega
      rw [hdiv, hmod, hc, ← digits, hquot]

theorem numeral_iff {n : Nat} {cs : List Char} : Numeral n cs ↔ cs = digits n := by
  constructor
  · intro h
    rw [← h.value_eq, digits_value h.ne_nil h.isDigit h.leading]
  · rintro rfl
    exact numeral_digits n

theorem ofInt_natCast (n : Nat) : ofInt n = digits n :=
  if_neg (Int.not_lt.mpr (Int.natCast_nonneg n))

theorem ofInt_negSucc (n : Nat) : ofInt (.negSucc n) = '-' :: digits (n + 1) :=
  if_pos (Int.negSucc_lt_zero n)

/-- The text of an integer: a minus sign if it is negative, and the numeral of its magnitude. -/
inductive Written : Int → List Char → Prop
  | nonneg {n : Nat} {cs : List Char} (h : Numeral n cs) : Written n cs
  | neg {n : Nat} {cs : List Char} (h : Numeral (n + 1) cs) : Written (.negSucc n) ('-' :: cs)

theorem written_iff {z : Int} {cs : List Char} : Written z cs ↔ cs = ofInt z := by
  constructor
  · rintro (⟨h⟩ | ⟨h⟩)
    · rw [numeral_iff.mp h, ofInt_natCast]
    · rw [numeral_iff.mp h, ofInt_negSucc]
  · rintro rfl
    cases z with
    | ofNat n => exact ofInt_natCast n ▸ .nonneg (numeral_digits n)
    | negSucc n => exact ofInt_negSucc n ▸ .neg (numeral_digits (n + 1))

/-! ### Zeros in front -/

/-- The digits without the zeros in front of them; of zeros alone the last one stays. -/
def stripZeros : List Char → List Char
  | '0' :: c :: cs => stripZeros (c :: cs)
  | cs => cs

theorem stripZeros_of_leading {cs : List Char} (h : cs.head? = some '0' → cs = ['0']) :
    stripZeros cs = cs := by
  fun_cases stripZeros cs with
  | case1 c cs => exact absurd (h rfl) (by simp)
  | case2 => rfl

theorem stripZeros_replicate_append (k : Nat) {cs : List Char} (h : cs ≠ []) :
    stripZeros (List.replicate k '0' ++ cs) = stripZeros cs := by
  induction k with
  | zero => rfl
  | succ k ih =>
    obtain ⟨c, rest, hrest⟩ := List.exists_cons_of_ne_nil
      (List.append_ne_nil_of_right_ne_nil (List.replicate k '0') h)
    rw [List.replicate_succ, List.cons_append, hrest, stripZeros, ← hrest, ih]

variable (width n : Nat)

theorem value_padded : value (padded width n) = n := by
  rw [padded, value_append, value_replicate_zero, Nat.zero_mul, Nat.zero_add]
  exact Nat.ofDigitChars_ten_toDigits

theorem isDigit_padded : (padded width n).all Char.isDigit = true := by
  rw [padded, List.all_append, isDigit_digits, Bool.and_true, List.all_replicate]
  split
  · rfl
  · decide

theorem stripZeros_padded : stripZeros (padded width n) = digits n := by
  rw [padded, stripZeros_replicate_append _ (numeral_digits n).ne_nil,
    stripZeros_of_leading head?_digits]

variable {width n}

theorem length_padded (hwidth : 0 < width) (h : n < 10 ^ width) :
    (padded width n).length = width := by
  have hlength : (digits n).length ≤ width :=
    (Nat.length_toDigits_le_iff (by decide) hwidth).mpr h
  rw [padded, List.length_append, List.length_replicate]
  omega

/-! ### Order -/

theorem toNat_toUInt8 {c : Char} (h : c.isDigit = true) : c.toNat.toUInt8.toNat = c.toNat := by
  have hhigh : c.toNat ≤ 57 := (Char.isDigit_iff_toNat.mp h).2
  exact UInt8.toNat_ofNat_of_lt' (Nat.lt_of_le_of_lt hhigh (by decide))

/-- Digit strings of one length are ordered as the numbers that they write. -/
theorem compare_ofAscii {as bs : List Char} (hlen : as.length = bs.length)
    (ha : as.all Char.isDigit = true) (hb : bs.all Char.isDigit = true) :
    Bytes.compare (.ofAscii as) (.ofAscii bs) = compare (value as) (value bs) := by
  induction as generalizing bs with
  | nil =>
    rw [List.length_eq_zero_iff.mp hlen.symm]
    rfl
  | cons a as ih =>
    obtain ⟨b, bs, rfl⟩ := List.exists_cons_of_length_eq_add_one hlen.symm
    rw [List.all_cons, Bool.and_eq_true] at ha hb
    have hlen : as.length = bs.length := Nat.succ.inj hlen
    have hlow (c : Char) (hc : c.isDigit = true) : 48 ≤ c.toNat := (Char.isDigit_iff_toNat.mp hc).1
    have hlowa := hlow a ha.1
    have hlowb := hlow b hb.1
    -- the first digit decides unless it is the same in both
    have hfirst {x y p q u : Nat} (hxy : x < y) (hp : p < u) : x * u + p < y * u + q := by
      have := Nat.mul_le_mul_right u hxy
      rw [Nat.succ_mul] at this
      omega
    show (if _ then _ else if _ then _ else Bytes.compare (.ofAscii as) (.ofAscii bs)) = _
    simp only [UInt8.lt_iff_toNat_lt, toNat_toUInt8 ha.1, toNat_toUInt8 hb.1, value_cons, ← hlen]
    split
    · next h => exact (Nat.compare_eq_lt.mpr (hfirst (by omega) (value_lt ha.2))).symm
    split
    · next h => exact (Nat.compare_eq_gt.mpr (hfirst (by omega) (hlen ▸ value_lt hb.2))).symm
    · next h h' =>
      have hsame : a.toNat = b.toNat := by omega
      rw [ih hlen ha.2 hb.2, hsame]
      simp only [Nat.compare_eq_ite_lt, Nat.add_lt_add_iff_left]

end StoreClient.Decimal

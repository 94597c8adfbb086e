import StoreClient.Proofs.Binary64.Nearest
import StoreClient.Proofs.Charset.RoundTrip
import StoreClient.Proofs.Wire.IntegerCache

/-! # Scores

The text of a score is read back as a sign with `inf`, or as a decimal that is rounded to the
nearest number (`Binary64.Reads`), and no text reads back as two numbers (`Binary64.Reads.unique`).
An integer below `2 ^ 53` is written exactly and any other finite score by its shortest decimal, so
every score but a NaN reads back as itself (`WireTable.score_lossless`). -/

namespace StoreClient

/-! ### Reading back -/

namespace Binary64

/-- The numbers that a text reads back as: an infinity of the sign in front of `inf`, or the nearest
number to a decimal, with its sign even if it is zero. -/
inductive Reads : List Char → Binary64 → Prop
  | infinite {x : Binary64} (h : x.isInfinite = true) :
    Reads ((if x.negative then '-' else '+') :: "inf".toList) x
  | decimal {x : Binary64} {cs : List Char} {q : ℚ} (h : Decimal.rational? cs = some q)
    (hx : Nearest q x) : Reads (if x.negative then '-' :: cs else cs) x

variable {x y : Binary64}

/-- The text of a decimal shows the sign. -/
theorem signed_inj {cs cs' : List Char} {q q' : ℚ} (h : Decimal.rational? cs = some q)
    (h' : Decimal.rational? cs' = some q') {s t : Bool}
    (heq : (if s then '-' :: cs else cs) = if t then '-' :: cs' else cs') : s = t ∧ cs = cs' := by
  obtain ⟨-, c, hc, hdigit⟩ := Decimal.chars_of_rational? h
  obtain ⟨-, c', hc', hdigit'⟩ := Decimal.chars_of_rational? h'
  cases s <;> cases t
  · exact ⟨rfl, heq⟩
  · -- a decimal does not start with a sign
    rw [show cs = '-' :: cs' from heq, List.head?_cons, Option.some.injEq] at hc
    subst hc
    exact absurd hdigit (by decide)
  · rw [show cs' = '-' :: cs from heq.symm, List.head?_cons, Option.some.injEq] at hc'
    subst hc'
    exact absurd hdigit' (by decide)
  · exact ⟨rfl, List.tail_eq_of_cons_eq heq⟩

theorem signed_ne_inf {cs : List Char} {q : ℚ} (h : Decimal.rational? cs = some q) {s t : Bool} :
    (if s then '-' :: cs else cs) ≠ (if t then '-' else '+') :: "inf".toList := by
  intro heq
  obtain ⟨-, c, hc, hdigit⟩ := Decimal.chars_of_rational? h
  cases s
  · rw [show cs = _ from heq, List.head?_cons, Option.some.injEq] at hc
    subst hc
    cases t <;> exact absurd hdigit (by decide)
  · rw [show cs = "inf".toList from List.tail_eq_of_cons_eq heq] at hc
    cases hc
    exact absurd hdigit (by decide)

/-- A text reads back as one number. -/
theorem Reads.unique {cs : List Char} (hx : Reads cs x) (hy : Reads cs y) : x = y := by
  generalize hcs : cs = cs' at hy
  cases hx with
  | infinite h =>
    cases hy with
    | infinite h' =>
      refine eq_of_pattern ?_ (((isInfinite_iff _).mp h).trans ((isInfinite_iff _).mp h').symm)
      have hhead := List.head_eq_of_cons_eq hcs
      revert hhead
      cases x.negative <;> cases y.negative <;> decide
    | decimal h' _ => exact absurd hcs.symm (signed_ne_inf h')
  | decimal h hx =>
    cases hy with
    | infinite _ => exact absurd hcs (signed_ne_inf h)
    | decimal h' hy =>
      obtain ⟨hsign, rfl⟩ := signed_inj h h' hcs
      rw [h, Option.some.injEq] at h'
      subst h'
      exact eq_of_pattern hsign (hx.pattern_eq hy)

theorem Reads.toNat_lt {cs : List Char} (h : Reads cs x) : ∀ c ∈ cs, c.toNat < 0x80 := by
  have hminus : '-'.toNat < 0x80 := by decide
  cases h with
  | infinite _ =>
    have htail : ("inf".toList.all fun c => c.toNat < 0x80) = true := by decide
    refine List.forall_mem_cons.mpr
      ⟨?_, fun c hc => of_decide_eq_true (List.all_eq_true.mp htail c hc)⟩
    split <;> decide
  | @decimal _ ds _ h _ =>
    have hcs : ∀ c ∈ ds, c.toNat < 0x80 := by
      intro c hc
      rcases (Decimal.chars_of_rational? h).1 c hc with hdigit | rfl
      · exact Nat.lt_of_le_of_lt (Char.isDigit_iff_toNat.mp hdigit).2 (by decide)
      · decide
    split
    · exact List.forall_mem_cons.mpr ⟨hminus, hcs⟩
    · exact hcs

end Binary64

theorem Charset.decode_ofAscii {cs : List Char} (h : ∀ c ∈ cs, c.toNat < 0x80) :
    Charset.ascii.decode (.ofAscii cs) = cs := by
  show (cs.map fun c => c.toNat.toUInt8).map asciiChar = cs
  rw [List.map_map]
  refine (List.map_congr_left fun c hc => ?_).trans (List.map_id cs)
  have hlt := h c hc
  have hbyte : c.toNat.toUInt8 = byteBelow 0x80 c := (if_pos hlt).symm
  show asciiChar c.toNat.toUInt8 = c
  rw [hbyte, asciiChar_byteBelow, orQuestion, if_neg (by omega)]

/-! ### Writing -/

namespace WireTable

open Binary64

variable {x : Binary64}

theorem score_of_isNaN (bound : Nat) (h : x.isNaN = true) :
    (ofBound bound).score x = .error .notANumber := if_pos h

theorem ofInt_signed (negative : Bool) {n : Nat} (h : negative = true → n ≠ 0) :
    Decimal.ofInt (if negative then -n else n) =
      if negative then '-' :: Decimal.digits n else Decimal.digits n := by
  cases negative with
  | false => exact Decimal.ofInt_natCast n
  | true =>
    obtain ⟨k, rfl⟩ := Nat.exists_eq_add_one_of_ne_zero (h rfl)
    exact Decimal.ofInt_negSucc k

theorem score_of_natAbs? (bound : Nat) (hx : x.isNaN = false) (hfinite : x.isInfinite = false)
    (hzero : (x.negative && x.steps == 0) = false) {n : Nat} (hn : x.natAbs? = some n) :
    (ofBound bound).score x =
      .ok (.array (.ofAscii (Decimal.ofInt (if x.negative then -n else n)))) := by
  simp only [score, hx, hfinite, hzero, hn, Bool.false_eq_true, if_false, integer_eq]

/-- Every score but a NaN has a text, whatever the bound of the table, that reads back as it. -/
theorem exists_text (hx : x.isNaN = false) : ∃ cs,
    (∀ bound, (ofBound bound).score x = .ok (.array (.ofAscii cs))) ∧ Reads cs x := by
  by_cases hinf : x.isInfinite = true
  · refine ⟨_, fun bound => ?_, .infinite hinf⟩
    simp only [score, hx, hinf, Bool.false_eq_true, if_false, if_true]
  have hfinite : x.isInfinite = false := Bool.not_eq_true _ ▸ hinf
  by_cases hzero : (x.negative && x.steps == 0) = true
  · refine ⟨"-0".toList, fun bound => ?_, ?_⟩
    · simp only [score, hx, hfinite, hzero, Bool.false_eq_true, if_false, if_true]
    · rw [Bool.and_eq_true, beq_iff_eq] at hzero
      have hnear := magnitude_eq_zero hzero.2 ▸ nearest_magnitude hx
      have := Reads.decimal (Decimal.rational?_digits 0) hnear
      rwa [if_pos hzero.1, Decimal.digits, Nat.toDigits_zero] at this
  have hsigned : (x.negative && x.steps == 0) = false := Bool.not_eq_true _ ▸ hzero
  cases hn : x.natAbs? with
  | some n =>
    have hmag := (natAbs?_eq_some_iff.mp hn).1
    refine ⟨_, fun bound => score_of_natAbs? bound hx hfinite hsigned hn, ?_⟩
    rw [ofInt_signed]
    · exact .decimal (Decimal.rational?_digits n) (hmag ▸ nearest_magnitude hx)
    · rintro hneg rfl
      have hsteps : x.steps = 0 := (magnitude_eq_natCast_iff.mp hmag).trans (Nat.zero_mul _)
      exact hzero (by rw [hneg, hsteps]; rfl)
  | none =>
    refine ⟨_, fun bound => ?_,
      .decimal (Decimal.rational?_positional _) (nearest_shortest hx (pattern_pos hn))⟩
    simp only [score, hx, hfinite, hsigned, hn, Bool.false_eq_true, if_false]

theorem score_of_value? (bound : Nat) {z : Int} (h : x.value? = some (z : ℚ))
    (hz : z.natAbs < 2 ^ 53) (hne : x ≠ negativeZero) :
    (ofBound bound).score x = .ok (.array (.ofAscii (Decimal.ofInt z))) := by
  obtain ⟨hx, hfinite, hmag, hsigned⟩ := of_value?_eq_int h
  have hzero : (x.negative && x.steps == 0) = false := by
    refine Bool.eq_false_iff.mpr fun hzero => hne ?_
    rw [Bool.and_eq_true, beq_iff_eq] at hzero
    exact eq_negativeZero hzero.1 hzero.2
  rw [score_of_natAbs? bound hx hfinite hzero (natAbs?_eq_some_iff.mpr ⟨hmag, hz⟩), hsigned]

/-- Only a NaN has no text.  Any other score has one text, whatever the bound of the table, and the
text reads back as that score alone, so no two scores share a text; a whole number below `2 ^ 53`
other than the zero with a sign is written as an integer. -/
theorem score_lossless :
    (∀ bound x e, (ofBound bound).score x = .error e ↔ x.isNaN = true ∧ e = .notANumber) ∧
    (∀ x : Binary64, x.isNaN = false → ∃ bs,
      (∀ bound, (ofBound bound).score x = .ok (.array bs)) ∧
      ∀ y, Reads (Charset.ascii.decode bs) y ↔ y = x) ∧
    (∀ x y : Binary64, x.isNaN = false → y.isNaN = false → x ≠ y →
      ∀ bound bound', (ofBound bound).score x ≠ (ofBound bound').score y) ∧
    ∀ (x : Binary64) (z : Int), x.value? = some (z : ℚ) → z.natAbs < 2 ^ 53 → x ≠ negativeZero →
      ∃ cs, Decimal.Written z cs ∧
        ∀ bound, (ofBound bound).score x = .ok (.array (.ofAscii cs)) := by
  refine ⟨fun bound x e => ?_, fun x hx => ?_, fun x y hx hy hne bound bound' heq => ?_,
    fun x z hvalue hz hne => ?_⟩
  · cases hx : x.isNaN with
    | true =>
      rw [score_of_isNaN bound hx, Except.error.injEq]
      exact ⟨fun h => ⟨rfl, h.symm⟩, fun h => h.2.symm⟩
    | false =>
      obtain ⟨cs, hscore, -⟩ := exists_text hx
      rw [hscore bound]
      exact iff_of_false (by simp) (by simp)
  · obtain ⟨cs, hscore, hreads⟩ := exists_text hx
    refine ⟨_, hscore, fun y => ?_⟩
    rw [Charset.decode_ofAscii hreads.toNat_lt]
    exact ⟨fun hy => hy.unique hreads, fun hy => hy ▸ hreads⟩
  · obtain ⟨cs, hscore, hreads⟩ := exists_text hx
    obtain ⟨cs', hscore', hreads'⟩ := exists_text hy
    rw [hscore bound, hscore' bound', Except.ok.injEq, ByteSeq.array.injEq] at heq
    have hsame := congrArg Charset.ascii.decode heq
    rw [Charset.decode_ofAscii hreads.toNat_lt, Charset.decode_ofAscii hreads'.toNat_lt] at hsame
    exact hne (hreads.unique (hsame ▸ hreads'))
  · exact ⟨Decimal.ofInt z, Decimal.written_iff.mpr rfl,
      fun bound => score_of_value? bound hvalue hz hne⟩

theorem score_lossless_of_neighbours :
    (∃ bs, (∀ bound, (ofBound bound).score ⟨0x3FB999999999999A⟩ = .ok (.array bs)) ∧
      ∀ y, Reads (Charset.ascii.decode bs) y ↔ y = ⟨0x3FB999999999999A⟩) ∧
    (ofBound 0).score ⟨0x3FB999999999999A⟩ ≠ (ofBound 1024).score ⟨0x3FB999999999999B⟩ ∧
    (∃ cs, Decimal.Written (-3) cs ∧
      ∀ bound, (ofBound bound).score ⟨0xC008000000000000⟩ = .ok (.array (.ofAscii cs))) ∧
    (ofBound 7).score ⟨0x7FF8000000000001⟩ = .error .notANumber := by
  obtain ⟨hfails, hreads, hdiffer, hwhole⟩ := score_lossless
  exact ⟨hreads _ (by decide), hdiffer _ _ (by decide) (by decide) (by decide) 0 1024,
    hwhole _ (-3) (by decide +kernel) (by decide) (by decide), (hfails _ _ _).mpr ⟨by decide, rfl⟩⟩

end WireTable
end StoreClient

import StoreClient.Proofs.Decimal.Numerals
import StoreClient.Proofs.Ids.Rising

/-! # Padded ids

The largest word has twenty digits, so that the padded text of an id has twenty (`length_padded`)
and the padded texts are ordered byte by byte as the ids (`compare_padded`).  The ids of a run of
polls rise, and so do their padded texts (`SnowflakeId.padded_sorts`). -/

namespace StoreClient.SnowflakeId

theorem isDigit_padded (id : SnowflakeId) : id.padded.all Char.isDigit = true :=
  Decimal.isDigit_padded _ _

theorem length_padded (id : SnowflakeId) : id.padded.length = 20 := by
  have hfits : id.raw.toNat < 10 ^ 20 := Nat.lt_trans id.raw.toNat_lt (by decide)
  exact Decimal.length_padded (by decide) hfits

/-- Padded texts compare byte by byte as the ids do. -/
theorem compare_padded (a b : SnowflakeId) :
    Bytes.compare (.ofAscii a.padded) (.ofAscii b.padded) = compare a.raw.toNat b.raw.toNat := by
  have hlength : a.padded.length = b.padded.length := a.length_padded.trans b.length_padded.symm
  rw [Decimal.compare_ofAscii hlength a.isDigit_padded b.isDigit_padded, padded, padded,
    Decimal.value_padded, Decimal.value_padded]

theorem padded_rise {ids : List SnowflakeId} (h : ids.Pairwise fun a b => a.raw < b.raw) :
    (ids.map padded).Pairwise fun s t => Bytes.compare (.ofAscii s) (.ofAscii t) = .lt := by
  rw [List.pairwise_map]
  refine h.imp ?_
  intro a b hlt
  rw [compare_padded, Nat.compare_eq_lt]
  exact UInt64.lt_iff_toNat_lt.mp hlt

/-- The padded text of an id is twenty digits that write the id, and without the zeros in front it
is the text of the id.  Padded texts are ordered as the ids; those of the ids of a run of polls on
a new generator rise strictly. -/
theorem padded_sorts :
    (∀ id : SnowflakeId, id.padded.length = 20 ∧ id.padded.all Char.isDigit = true ∧
      Decimal.value id.padded = id.raw.toNat ∧ Decimal.stripZeros id.padded = id.digits) ∧
    (∀ a b : SnowflakeId,
      Bytes.compare (.ofAscii a.padded) (.ofAscii b.padded) =
        compare a.raw.toNat b.raw.toNat) ∧
    ∀ (sharing : Sharing) (c : IdSettings) (rs : List Reading),
      ((issuedIds ((IdGenerator.fresh sharing c).pollAll rs).1).map padded).Pairwise fun s t =>
        Bytes.compare (.ofAscii s) (.ofAscii t) = .lt := by
  refine ⟨?_, compare_padded, ?_⟩
  · intro id
    exact ⟨id.length_padded, id.isDigit_padded, Decimal.value_padded _ _,
      Decimal.stripZeros_padded _ _⟩
  · intro sharing c rs
    exact padded_rise (IdGenerator.continues_pollAll (IdGenerator.fresh sharing c) rs nofun).rising

end StoreClient.SnowflakeId

import StoreClient.Ids.Layout
import Mathlib.Tactic.Ring

/-! # Packed fields

Fields that fit their widths (`IdLayout.Fits`) make up a number below `2 ^ 63`, and the numbers are
ordered as the fields are, the timestamp first and the sequence last (`IdLayout.pack_lt_pack`).
`IdLayout.encode_eq_ok_iff` says when an id is made and which, `IdLayout.decode_of_encode` that its
fields can be read back. -/

namespace StoreClient

/-- Earlier by timestamp, then by worker, then by sequence. -/
def IdParts.Before (a b : IdParts) : Prop :=
  a.timestamp < b.timestamp ∨ a.timestamp = b.timestamp ∧
    (a.workerId < b.workerId ∨ a.workerId = b.workerId ∧ a.sequence < b.sequence)

theorem mul_add_lt_mul_add {x y a b c : Nat} (hxy : x < y) (ha : a < c) :
    x * c + a < y * c + b := by
  have h : (x + 1) * c ≤ y * c := Nat.mul_le_mul_right c hxy
  rw [Nat.add_mul, Nat.one_mul] at h
  omega

namespace IdLayout

variable {l : IdLayout} {p : IdParts}

structure Fits (l : IdLayout) (p : IdParts) : Prop where
  timestamp : p.timestamp ≤ l.max .timestamp
  workerId : p.workerId ≤ l.max .workerId
  sequence : p.sequence ≤ l.max .sequence

theorem lt_capacity {f : Field} {v : Nat} (h : v ≤ l.max f) : v < l.capacity f := by
  rw [← l.max_add_one f]
  exact Nat.lt_succ_of_le h

theorem check_eq_ok_iff {f : Field} {v : Nat} : l.check f v = .ok () ↔ v ≤ l.max f := by
  unfold check
  split <;> simp_all

theorem encode_eq_ok_iff {id : SnowflakeId} :
    l.encode p = .ok id ↔ l.Fits p ∧ id = ⟨(l.pack p).toUInt64⟩ := by
  constructor
  · intro h
    unfold encode at h
    cases ht : l.check .timestamp p.timestamp with
    | error e => rw [ht] at h; exact nomatch h
    | ok =>
      cases hw : l.check .workerId p.workerId with
      | error e => rw [ht, hw] at h; exact nomatch h
      | ok =>
        cases hs : l.check .sequence p.sequence with
        | error e => rw [ht, hw, hs] at h; exact nomatch h
        | ok =>
          rw [ht, hw, hs] at h
          exact ⟨⟨check_eq_ok_iff.mp ht, check_eq_ok_iff.mp hw, check_eq_ok_iff.mp hs⟩,
            (Except.ok.inj h).symm⟩
  · rintro ⟨h, rfl⟩
    unfold encode
    rw [check_eq_ok_iff.mpr h.timestamp, check_eq_ok_iff.mpr h.workerId,
      check_eq_ok_iff.mpr h.sequence]
    rfl

theorem capacity_mul_eq (l : IdLayout) :
    l.capacity .timestamp * l.capacity .workerId * l.capacity .sequence = 2 ^ l.bits := by
  simp only [capacity, width, bits, Nat.pow_eq, Nat.pow_add]

theorem two_pow_bits_le (l : IdLayout) : 2 ^ l.bits ≤ 2 ^ 63 :=
  Nat.pow_le_pow_right (by decide) l.bits_le_63

theorem pack_lt_two_pow_bits (h : l.Fits p) : l.pack p < 2 ^ l.bits := by
  rw [← l.capacity_mul_eq]
  have hw := mul_add_lt_mul_add (b := 0) (lt_capacity h.timestamp) (lt_capacity h.workerId)
  have hs := mul_add_lt_mul_add (b := 0) hw (lt_capacity h.sequence)
  simpa [pack] using hs

/-- The sign bit stays free. -/
theorem pack_lt (h : l.Fits p) : l.pack p < 2 ^ 63 :=
  Nat.lt_of_lt_of_le (pack_lt_two_pow_bits h) l.two_pow_bits_le

theorem toNat_pack (h : l.Fits p) : (l.pack p).toUInt64.toNat = l.pack p := by
  have := pack_lt h
  rw [UInt64.toNat_ofNat_of_lt']
  exact Nat.lt_trans this (by decide)

/-- Packing keeps the order of the fields. -/
theorem pack_lt_pack {a b : IdParts} (ha : l.Fits a) (h : a.Before b) : l.pack a < l.pack b := by
  unfold pack
  rcases h with ht | ⟨ht, hw | ⟨hw, hs⟩⟩
  · exact mul_add_lt_mul_add (mul_add_lt_mul_add ht (lt_capacity ha.workerId))
      (lt_capacity ha.sequence)
  · rw [ht]
    exact mul_add_lt_mul_add (Nat.add_lt_add_left hw _) (lt_capacity ha.sequence)
  · rw [ht, hw]
    exact Nat.add_lt_add_left hs _

/-- An id gives back the fields that it was made of. -/
theorem decode_of_encode {id : SnowflakeId} (h : l.encode p = .ok id) : l.decode id = p := by
  obtain ⟨hf, rfl⟩ := encode_eq_ok_iff.mp h
  have hs := lt_capacity hf.sequence
  have hw := lt_capacity hf.workerId
  have ht := lt_capacity hf.timestamp
  unfold decode
  rw [toNat_pack hf]
  have hdiv : l.pack p / l.capacity .sequence = p.timestamp * l.capacity .workerId + p.workerId := by
    unfold pack
    rw [Nat.mul_comm, Nat.mul_add_div (l.capacity_pos .sequence), Nat.div_eq_of_lt hs, Nat.add_zero]
  have hdiv' : l.pack p / (l.capacity .sequence * l.capacity .workerId) = p.timestamp := by
    rw [← Nat.div_div_eq_div_mul, hdiv, Nat.mul_comm, Nat.mul_add_div (l.capacity_pos .workerId),
      Nat.div_eq_of_lt hw, Nat.add_zero]
  have hmod : l.pack p % l.capacity .sequence = p.sequence := by
    unfold pack
    rw [Nat.mul_comm, Nat.mul_add_mod, Nat.mod_eq_of_lt hs]
  rw [hdiv', hdiv, hmod, Nat.mod_eq_of_lt ht]
  rw [Nat.mul_comm, Nat.mul_add_mod, Nat.mod_eq_of_lt hw]

end IdLayout
end StoreClient

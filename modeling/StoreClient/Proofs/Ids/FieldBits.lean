import StoreClient.Proofs.Ids.Packing

/-! # Fields as bits of a word

An id is the or of its fields, each shifted to its place (`IdLayout.shifted`), and a field is read
back by a shift and a mask (`IdLayout.extract`): no bits overlap and none are lost, whatever the
widths.  `IdLayout.packing_exact` says that packing and splitting are inverse to each other, which
field is named when one does not fit, and that ids compare as their fields do. -/

namespace StoreClient

/-- The fields, most significant first. -/
def Field.all : List Field := [.timestamp, .workerId, .sequence]

namespace IdParts

variable {p q : IdParts}

def value (p : IdParts) : Field → Nat
  | .timestamp => p.timestamp
  | .workerId => p.workerId
  | .sequence => p.sequence

/-- Compares timestamps first, then workers, then sequence numbers. -/
def order (p q : IdParts) : Ordering :=
  (compare p.timestamp q.timestamp).then
    ((compare p.workerId q.workerId).then (compare p.sequence q.sequence))

theorem order_eq_lt_iff : p.order q = .lt ↔ p.Before q := by
  simp only [order, Before, Ordering.then_eq_lt, Nat.compare_eq_lt, Nat.compare_eq_eq]

theorem order_eq_gt_iff : p.order q = .gt ↔ q.Before p := by
  simp only [order, Before, Ordering.then_eq_gt, Nat.compare_eq_gt, Nat.compare_eq_eq]
  omega

theorem order_eq_eq_iff : p.order q = .eq ↔ p = q := by
  simp only [order, Ordering.then_eq_eq, Nat.compare_eq_eq]
  cases p
  cases q
  simp

end IdParts

namespace IdLayout

variable {l : IdLayout} {p q : IdParts}

/-! ### The bits of an id -/

/-- How far a field stands above the lowest bit. -/
def shift (l : IdLayout) : Field → Nat
  | .timestamp => l.sequenceBits + l.workerBits
  | .workerId => l.sequenceBits
  | .sequence => 0

def mask (l : IdLayout) (f : Field) : UInt64 := (1 <<< (l.width f).toUInt64) - 1

/-- The fields in one word, each shifted to its place. -/
def shifted (l : IdLayout) (p : IdParts) : UInt64 :=
  p.timestamp.toUInt64 <<< (l.shift .timestamp).toUInt64 |||
    p.workerId.toUInt64 <<< (l.shift .workerId).toUInt64 ||| p.sequence.toUInt64

def extract (l : IdLayout) (id : SnowflakeId) (f : Field) : UInt64 :=
  id.raw >>> (l.shift f).toUInt64 &&& l.mask f

theorem shift_add_width_le (l : IdLayout) (f : Field) : l.shift f + l.width f ≤ 63 := by
  have := l.bits_le
  cases f <;> simp only [shift, width] <;> omega

theorem toNat_places {k : Nat} (hk : k < 64) : k.toUInt64.toNat % 64 = k := by
  rw [UInt64.toNat_ofNat_of_lt' (Nat.lt_trans hk (by decide)), Nat.mod_eq_of_lt hk]

theorem toNat_shiftLeft_of_lt {v w k : Nat} (hv : v < 2 ^ w) (hk : k + w ≤ 63) :
    (v.toUInt64 <<< k.toUInt64).toNat = v * 2 ^ k := by
  have hle : 2 ^ (w + k) ≤ 2 ^ 63 := Nat.pow_le_pow_right (by decide) (by omega)
  have hmul : v * 2 ^ k < 2 ^ (w + k) := by
    rw [Nat.pow_add]
    exact Nat.mul_lt_mul_of_pos_right hv (Nat.two_pow_pos k)
  have hlt : v < 2 ^ 64 := Nat.lt_of_lt_of_le hv (Nat.pow_le_pow_right (by decide) (by omega))
  rw [UInt64.toNat_shiftLeft, toNat_places (by omega), UInt64.toNat_ofNat_of_lt' hlt,
    Nat.shiftLeft_eq, Nat.mod_eq_of_lt (by omega)]

theorem toNat_mask (l : IdLayout) (f : Field) : (l.mask f).toNat = 2 ^ l.width f - 1 := by
  have hw : l.width f ≤ 63 := Nat.le_trans (Nat.le_add_left _ _) (l.shift_add_width_le f)
  have hone : ((1 : UInt64) <<< (l.width f).toUInt64).toNat = 2 ^ l.width f := by
    have hpow : 2 ^ l.width f < 2 ^ 64 := Nat.pow_lt_pow_right (by decide) (by omega)
    rw [UInt64.toNat_shiftLeft, toNat_places (by omega), UInt64.toNat_one, Nat.one_shiftLeft,
      Nat.mod_eq_of_lt hpow]
  have hle : (1 : UInt64) ≤ 1 <<< (l.width f).toUInt64 := by
    rw [UInt64.le_iff_toNat_le, hone]
    exact Nat.one_le_two_pow
  rw [mask, UInt64.toNat_sub_of_le _ _ hle, hone]
  rfl

theorem toNat_extract (l : IdLayout) (id : SnowflakeId) (f : Field) :
    (l.extract id f).toNat = id.raw.toNat / 2 ^ l.shift f % 2 ^ l.width f := by
  have hs := l.shift_add_width_le f
  rw [extract, UInt64.toNat_and, toNat_mask, UInt64.toNat_shiftRight, toNat_places (by omega),
    Nat.shiftRight_eq_div_pow, Nat.and_two_pow_sub_one_eq_mod]

theorem value_decode (l : IdLayout) (id : SnowflakeId) (f : Field) :
    (l.decode id).value f = (l.extract id f).toNat := by
  rw [toNat_extract]
  cases f with
  | timestamp => simp only [decode, IdParts.value, capacity, width, shift, Nat.pow_eq, Nat.pow_add]
  | workerId => rfl
  | sequence =>
    simp only [decode, IdParts.value, capacity, shift, Nat.pow_eq, Nat.pow_zero, Nat.div_one]

/-- Fields that fit do not overlap, so that their or is their sum. -/
theorem toNat_shifted (h : l.Fits p) : (l.shifted p).toNat = l.pack p := by
  have hbits := l.bits_le
  have ht : p.timestamp < 2 ^ l.timestampBits := lt_capacity h.timestamp
  have hw : p.workerId < 2 ^ l.workerBits := lt_capacity h.workerId
  have hs : p.sequence < 2 ^ l.sequenceBits := lt_capacity h.sequence
  have hT : (p.timestamp.toUInt64 <<< (l.shift .timestamp).toUInt64).toNat =
      p.timestamp * 2 ^ (l.sequenceBits + l.workerBits) :=
    toNat_shiftLeft_of_lt ht (by simp only [shift]; omega)
  have hW : (p.workerId.toUInt64 <<< (l.shift .workerId).toUInt64).toNat =
      p.workerId * 2 ^ l.sequenceBits :=
    toNat_shiftLeft_of_lt hw (by simp only [shift]; omega)
  have hword : 2 ^ l.sequenceBits ≤ 2 ^ 64 := Nat.pow_le_pow_right (by decide) (by omega)
  have hS : p.sequence.toUInt64.toNat = p.sequence :=
    UInt64.toNat_ofNat_of_lt' (Nat.lt_of_lt_of_le hs hword)
  -- the worker stands below the timestamp, the sequence below both
  have hupper : p.workerId * 2 ^ l.sequenceBits < 2 ^ (l.sequenceBits + l.workerBits) := by
    rw [Nat.add_comm, Nat.pow_add]
    exact Nat.mul_lt_mul_of_pos_right hw (Nat.two_pow_pos l.sequenceBits)
  have hor : p.timestamp * 2 ^ (l.sequenceBits + l.workerBits) ||| p.workerId * 2 ^ l.sequenceBits =
      2 ^ l.sequenceBits * (p.timestamp * 2 ^ l.workerBits + p.workerId) := by
    rw [Nat.mul_comm p.timestamp, ← Nat.two_pow_add_eq_or_of_lt hupper, Nat.pow_add]
    ring
  rw [shifted, UInt64.toNat_or, UInt64.toNat_or, hT, hW, hS, hor,
    ← Nat.two_pow_add_eq_or_of_lt hs, Nat.mul_comm]
  rfl

theorem shifted_eq (h : l.Fits p) : l.shifted p = (l.pack p).toUInt64 := by
  rw [← UInt64.toNat_inj, toNat_shifted h, toNat_pack h]

/-! ### Packing and splitting -/

/-- An id is made of fields that fit, and else the first that does not is named. -/
theorem encode_eq (l : IdLayout) (p : IdParts) :
    l.encode p = match Field.all.find? fun f => l.max f < p.value f with
      | some f => .error (.domain f (p.value f) (l.max f))
      | none => .ok ⟨l.shifted p⟩ := by
  by_cases ht : l.max .timestamp < p.value .timestamp
  · have hfind : (Field.all.find? fun f => l.max f < p.value f) = some .timestamp := by
      simp [Field.all, ht]
    have hcheck : l.check .timestamp p.timestamp = .error (.domain .timestamp p.timestamp _) :=
      if_neg (Nat.not_le.mpr ht)
    rw [hfind, encode, hcheck]
    rfl
  have htime : l.check .timestamp p.timestamp = .ok () := check_eq_ok_iff.mpr (Nat.not_lt.mp ht)
  by_cases hw : l.max .workerId < p.value .workerId
  · have hfind : (Field.all.find? fun f => l.max f < p.value f) = some .workerId := by
      simp [Field.all, ht, hw]
    have hcheck : l.check .workerId p.workerId = .error (.domain .workerId p.workerId _) :=
      if_neg (Nat.not_le.mpr hw)
    rw [hfind, encode, htime, hcheck]
    rfl
  have hworker : l.check .workerId p.workerId = .ok () := check_eq_ok_iff.mpr (Nat.not_lt.mp hw)
  by_cases hs : l.max .sequence < p.value .sequence
  · have hfind : (Field.all.find? fun f => l.max f < p.value f) = some .sequence := by
      simp [Field.all, ht, hw, hs]
    have hcheck : l.check .sequence p.sequence = .error (.domain .sequence p.sequence _) :=
      if_neg (Nat.not_le.mpr hs)
    rw [hfind, encode, htime, hworker, hcheck]
    rfl
  have hfit : l.Fits p := ⟨Nat.not_lt.mp ht, Nat.not_lt.mp hw, Nat.not_lt.mp hs⟩
  have hfind : (Field.all.find? fun f => l.max f < p.value f) = none := by
    simp [Field.all, ht, hw, hs]
  rw [hfind]
  exact encode_eq_ok_iff.mpr ⟨hfit, congrArg _ (shifted_eq hfit)⟩

theorem toNat_of_encode {id : SnowflakeId} (h : l.encode p = .ok id) :
    l.Fits p ∧ id.raw.toNat = l.pack p := by
  obtain ⟨hfit, rfl⟩ := encode_eq_ok_iff.mp h
  exact ⟨hfit, toNat_pack hfit⟩

theorem order_eq_compare_pack (hp : l.Fits p) (hq : l.Fits q) :
    p.order q = compare (l.pack p) (l.pack q) := by
  cases ho : p.order q with
  | lt => exact (Nat.compare_eq_lt.mpr (pack_lt_pack hp (IdParts.order_eq_lt_iff.mp ho))).symm
  | eq =>
    obtain rfl := IdParts.order_eq_eq_iff.mp ho
    exact (Nat.compare_eq_eq.mpr rfl).symm
  | gt => exact (Nat.compare_eq_gt.mpr (pack_lt_pack hq (IdParts.order_eq_gt_iff.mp ho))).symm

theorem compare_of_encode {a b : SnowflakeId} (ha : l.encode p = .ok a) (hb : l.encode q = .ok b) :
    compare a b = p.order q := by
  obtain ⟨hp, hpack⟩ := toNat_of_encode ha
  obtain ⟨hq, hpack'⟩ := toNat_of_encode hb
  have hraw : compare a b = compare a.raw b.raw := by
    simp [compare, instOrdSnowflakeId.ord]
  rw [hraw, UInt64.compare_eq_toNat_compare_toNat, hpack, hpack', order_eq_compare_pack hp hq]

theorem fits_decode (l : IdLayout) (id : SnowflakeId) : l.Fits (l.decode id) := by
  have hmod : ∀ n f, n % l.capacity f ≤ l.max f := fun n f =>
    Nat.le_sub_one_of_lt (Nat.mod_lt n (l.capacity_pos f))
  exact ⟨hmod _ _, hmod _ _, hmod _ _⟩

/-- Packing the fields of an id keeps the bits of the layout. -/
theorem pack_decode (l : IdLayout) (id : SnowflakeId) :
    l.pack (l.decode id) = id.raw.toNat % 2 ^ l.bits := by
  rw [← l.capacity_mul_eq, Nat.mul_assoc, Nat.mul_comm, Nat.mul_comm (l.capacity .workerId),
    Nat.mod_mul, Nat.mod_mul]
  simp only [pack, decode]
  ring

/-- Packing loses nothing: it succeeds exactly for fields that fit and names the first that does
not, gives the fields back, stays within the layout's bits and keeps the order; and splitting any
word and packing it again leaves those bits of it. -/
theorem packing_exact (l : IdLayout) :
    (∀ p, l.encode p = match Field.all.find? fun f => l.max f < p.value f with
      | some f => .error (.domain f (p.value f) (l.max f))
      | none => .ok ⟨l.shifted p⟩) ∧
    (∀ id f, (l.decode id).value f = (l.extract id f).toNat) ∧
    (∀ p id, l.encode p = .ok id → l.decode id = p ∧ id.raw.toNat < 2 ^ l.bits) ∧
    2 ^ l.bits ≤ 2 ^ 63 ∧
    (∀ p q a b, l.encode p = .ok a → l.encode q = .ok b → compare a b = p.order q) ∧
    ∀ id, ∃ again, l.encode (l.decode id) = .ok again ∧
      again.raw.toNat = id.raw.toNat % 2 ^ l.bits := by
  refine ⟨l.encode_eq, l.value_decode, ?_, l.two_pow_bits_le, ?_, ?_⟩
  · intro p id h
    obtain ⟨hfit, hpack⟩ := toNat_of_encode h
    exact ⟨decode_of_encode h, hpack ▸ pack_lt_two_pow_bits hfit⟩
  · intro p q a b ha hb
    exact compare_of_encode ha hb
  · intro id
    have hfit := l.fits_decode id
    exact ⟨_, encode_eq_ok_iff.mpr ⟨hfit, rfl⟩, (toNat_pack hfit).trans (l.pack_decode id)⟩

/-- The last id of one worker and the first of the next in a tick; a worker and a sequence number
that are both too large; a word with bits above the layout. -/
theorem packing_exact_of_layout52 :
    ∃ a b again, layout52.encode ⟨7, 3, 1023⟩ = .ok a ∧ layout52.encode ⟨7, 4, 0⟩ = .ok b ∧
      compare a b = .lt ∧ layout52.decode a = ⟨7, 3, 1023⟩ ∧
      layout52.encode ⟨8, 64, 1024⟩ = .error (.domain .workerId 64 63) ∧
      layout52.encode (layout52.decode ⟨4503599627370501⟩) = .ok again ∧ again.raw.toNat = 5 := by
  obtain ⟨hencode, -, hdecode, -, hcompare, hagain⟩ := packing_exact layout52
  have ha : layout52.encode ⟨7, 3, 1023⟩ = .ok ⟨462847⟩ := rfl
  have hb : layout52.encode ⟨7, 4, 0⟩ = .ok ⟨462848⟩ := rfl
  obtain ⟨again, hsplit, hraw⟩ := hagain ⟨4503599627370501⟩
  exact ⟨_, _, again, ha, hb, (hcompare _ _ _ _ ha hb).trans rfl, (hdecode _ _ ha).1,
    hencode _, hsplit, hraw⟩

end IdLayout
end StoreClient

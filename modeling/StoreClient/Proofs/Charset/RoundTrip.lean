import StoreClient.ByteSeq.Text
import StoreClient.Proofs.Charset.Scan
import Mathlib.Data.List.Forall2

/-! # Text that is written and read back

Every character is one unit of UTF-8, and one or two units of UTF-16 of which none is a lone
surrogate (`Utf8.pieces_encodeChar`, `Utf16.decodeUnits_encodeChar`).  So reading gives back what a
charset has written, but for characters that became `?`; and the byte strings that survive being
read and written again are those that the charset writes (`Charset.round_trip`). -/

namespace StoreClient

theorem toNat_cases (ch : Char) : ch.toNat < 0xD800 ∨ 0xDFFF < ch.toNat ∧ ch.toNat < 0x110000 :=
  ch.valid

namespace Utf8

/-! ### UTF-8 -/

theorem contains_iff {r : Range} {b : UInt8} :
    r.contains b = true ↔ r.low.toNat ≤ b.toNat ∧ b.toNat ≤ r.high.toNat := by
  rw [Range.contains, Bool.and_eq_true, decide_eq_true_iff, decide_eq_true_iff,
    UInt8.le_iff_toNat_le, UInt8.le_iff_toNat_le]

section followers
variable {b : UInt8}

theorem followers_of_one (h : b.toNat < 0x80) : followers b = some [] := by
  simp only [followers, UInt8.lt_iff_toNat_lt, UInt8.reduceToNat]
  rw [if_pos h]

theorem followers_of_two (h : 0xC2 ≤ b.toNat) (h' : b.toNat < 0xE0) :
    followers b = some [tail] := by
  simp only [followers, UInt8.lt_iff_toNat_lt, UInt8.reduceToNat]
  rw [if_neg (by omega), if_neg (by omega), if_pos h']

/-- The second byte of three: two lead bytes narrow its range. -/
def second3 (b : UInt8) : Range :=
  if b.toNat = 0xE0 then ⟨0xA0, 0xBF⟩ else if b.toNat = 0xED then ⟨0x80, 0x9F⟩ else tail

theorem followers_of_three (h : 0xE0 ≤ b.toNat) (h' : b.toNat < 0xF0) :
    followers b = some [second3 b, tail] := by
  simp only [followers, second3, UInt8.lt_iff_toNat_lt, ← UInt8.toNat_inj, UInt8.reduceToNat]
  rw [if_neg (by omega), if_neg (by omega), if_neg (by omega)]
  split
  · rfl
  split
  · rfl
  · rfl

def second4 (b : UInt8) : Range :=
  if b.toNat = 0xF0 then ⟨0x90, 0xBF⟩ else if b.toNat = 0xF4 then ⟨0x80, 0x8F⟩ else tail

theorem followers_of_four (h : 0xF0 ≤ b.toNat) (h' : b.toNat ≤ 0xF4) :
    followers b = some [second4 b, tail, tail] := by
  simp only [followers, second4, UInt8.lt_iff_toNat_lt, ← UInt8.toNat_inj, UInt8.reduceToNat]
  rw [if_neg (by omega), if_neg (by omega), if_neg (by omega), if_neg (by omega), if_neg (by omega),
    if_neg (by omega)]
  split
  · rfl
  by_cases h4 : b.toNat = 0xF4
  · rw [if_neg (by omega), if_pos h4, if_pos h4]
  · rw [if_pos (by omega), if_neg h4]

end followers

/-- The bytes fit the ranges one by one. -/
def Fill (rs : List Range) (bs : Bytes) : Prop :=
  List.Forall₂ (fun r b => r.contains b = true) rs bs

theorem spanFit_of_fill {rs : List Range} {bs : Bytes} (h : Fill rs bs) (rest : Bytes) :
    spanFit rs (bs ++ rest) = (bs, rest) := by
  induction h with
  | nil => rfl
  | cons hb hrest ih => rw [List.cons_append, spanFit, if_pos hb, ih]

theorem pieces_of_fill {b : UInt8} {bs : Bytes} {rs : List Range} (hb : followers b = some rs)
    (hbs : Fill rs bs) (rest : Bytes) :
    pieces (b :: bs ++ rest) = Piece.cons (charOf (b :: bs)) (pieces rest) := by
  have hspan := spanFit_of_fill hbs rest
  rw [List.cons_append, pieces_of_unit hb (by rw [hspan]; exact hbs.length_eq.symm), hspan]

theorem charOf_eq {bs : Bytes} {ch : Char} (h : codePoint bs = ch.toNat) : charOf bs = ch := by
  rw [charOf, h, Char.ofNat_toNat]

/-- The unit of a character: a lead byte, and bytes that fill the ranges after it. -/
theorem encodeChar_cases (ch : Char) : ∃ b bs rs, encodeChar ch = b :: bs ∧
    followers b = some rs ∧ Fill rs bs ∧ codePoint (b :: bs) = ch.toNat := by
  have hvalid := toNat_cases ch
  have htail : ∀ m, m < 64 → tail.contains (128 + m).toUInt8 = true := by
    intro m hm
    have hlt : 128 + m < 256 := by omega
    rw [contains_iff, UInt8.toNat_ofNat_of_lt' hlt]
    exact ⟨Nat.le_add_right _ _, by show _ ≤ 191; omega⟩
  generalize hn : ch.toNat = n at hvalid
  unfold encodeChar
  simp only [hn]
  have hbyte : ∀ m, m < 256 → m.toUInt8.toNat = m := fun m hm => UInt8.toNat_ofNat_of_lt' hm
  split
  · next h1 =>
    have hb := hbyte n (by omega)
    exact ⟨_, _, _, rfl, followers_of_one (by omega), .nil, hb⟩
  next h1 =>
  have hc := hbyte (128 + n % 64) (by omega)
  split
  · next h2 =>
    have hb := hbyte (192 + n / 64) (by omega)
    refine ⟨_, _, _, rfl, followers_of_two (by omega) (by omega),
      .cons (htail _ (by omega)) .nil, ?_⟩
    simp only [codePoint, hb, hc]
    omega
  next h2 =>
  have hd := hbyte (128 + n / 64 % 64) (by omega)
  split
  · next h3 =>
    have hb := hbyte (224 + n / 4096) (by omega)
    refine ⟨_, _, _, rfl, followers_of_three (by omega) (by omega),
      .cons ?_ (.cons (htail _ (by omega)) .nil), ?_⟩
    · rw [contains_iff, hd, second3, hb]
      split
      · show 160 ≤ _ ∧ _ ≤ 191
        omega
      split
      · show 128 ≤ _ ∧ _ ≤ 159
        omega
      · show 128 ≤ _ ∧ _ ≤ 191
        omega
    · simp only [codePoint, hb, hc, hd]
      omega
  · next h3 =>
    have hb := hbyte (240 + n / 262144) (by omega)
    have he := hbyte (128 + n / 4096 % 64) (by omega)
    refine ⟨_, _, _, rfl, followers_of_four (by omega) (by omega),
      .cons ?_ (.cons (htail _ (by omega)) (.cons (htail _ (by omega)) .nil)), ?_⟩
    · rw [contains_iff, he, second4, hb]
      split
      · show 144 ≤ _ ∧ _ ≤ 191
        omega
      split
      · show 128 ≤ _ ∧ _ ≤ 143
        omega
      · show 128 ≤ _ ∧ _ ≤ 191
        omega
    · simp only [codePoint, hb, hc, hd, he]
      omega

theorem pieces_encodeChar (ch : Char) (rest : Bytes) :
    pieces (encodeChar ch ++ rest) = Piece.cons ch (pieces rest) := by
  obtain ⟨b, bs, rs, hunit, hb, hbs, hcode⟩ := encodeChar_cases ch
  rw [hunit, pieces_of_fill hb hbs, charOf_eq hcode]

theorem decode_encode (cs : List Char) : decode (encode cs) = cs := by
  induction cs with
  | nil =>
    show (pieces []).flatMap Piece.text = []
    rw [pieces_eq_nil_iff.mpr rfl]
    rfl
  | cons c cs ih =>
    show (pieces (encodeChar c ++ encode cs)).flatMap Piece.text = c :: cs
    rw [pieces_encodeChar, flatMap_text_cons]
    exact congrArg _ ih

end Utf8

namespace Utf16

/-! ### UTF-16 -/

variable (order : ByteOrder)

theorem units_unitBytes (u : UInt16) (rest : Bytes) :
    units order (unitBytes order u ++ rest) =
      (u :: (units order rest).1, (units order rest).2) := by
  have hu : (u / 256).toUInt8.toUInt16 * 256 + u.toUInt8.toUInt16 = u := by
    rw [← UInt16.toNat_inj]
    have := u.toNat_lt
    simp only [UInt16.toNat_add, UInt16.toNat_mul, UInt8.toNat_toUInt16, UInt16.toNat_toUInt8,
      UInt16.toNat_div, UInt16.reduceToNat]
    omega
  cases order with
  | big =>
    show (((u / 256).toUInt8.toUInt16 * 256 + u.toUInt8.toUInt16) :: _, _) = _
    rw [hu]
    rfl
  | little =>
    show (((u / 256).toUInt8.toUInt16 * 256 + u.toUInt8.toUInt16) :: _, _) = _
    rw [hu]
    rfl

theorem units_flatMap (us : List UInt16) :
    units order (us.flatMap (unitBytes order)) = (us, []) := by
  induction us with
  | nil => rfl
  | cons u us ih => rw [List.flatMap_cons, units_unitBytes, ih]

theorem isHigh_iff {u : UInt16} : isHigh u = true ↔ 0xD800 ≤ u.toNat ∧ u.toNat < 0xDC00 := by
  rw [isHigh, Bool.and_eq_true, decide_eq_true_iff, decide_eq_true_iff, UInt16.le_iff_toNat_le,
    UInt16.lt_iff_toNat_lt]
  rfl

theorem isLow_iff {u : UInt16} : isLow u = true ↔ 0xDC00 ≤ u.toNat ∧ u.toNat < 0xE000 := by
  rw [isLow, Bool.and_eq_true, decide_eq_true_iff, decide_eq_true_iff, UInt16.le_iff_toNat_le,
    UInt16.lt_iff_toNat_lt]
  rfl

theorem decodeUnits_encodeChar (ch : Char) (us : List UInt16) :
    decodeUnits (encodeChar ch ++ us) = ch :: decodeUnits us := by
  have hvalid := toNat_cases ch
  have hunit : ∀ m, m < 65536 → m.toUInt16.toNat = m := fun m hm => UInt16.toNat_ofNat_of_lt' hm
  unfold encodeChar
  simp only
  split
  · next h =>
    have hu := hunit ch.toNat h
    have hhigh : isHigh ch.toNat.toUInt16 = false := by
      rw [Bool.eq_false_iff, ne_eq, isHigh_iff, hu]
      omega
    have hlow : isLow ch.toNat.toUInt16 = false := by
      rw [Bool.eq_false_iff, ne_eq, isLow_iff, hu]
      omega
    rw [List.singleton_append, decodeUnits_cons_of_not_isHigh us hhigh, single, hhigh, hlow, hu,
      Char.ofNat_toNat]
    rfl
  · next h =>
    have hh := hunit (0xD800 + (ch.toNat - 0x10000) / 0x400) (by omega)
    have hl := hunit (0xDC00 + (ch.toNat - 0x10000) % 0x400) (by omega)
    have hhigh : isHigh (0xD800 + (ch.toNat - 0x10000) / 0x400).toUInt16 = true := by
      rw [isHigh_iff, hh]
      omega
    have hlow : isLow (0xDC00 + (ch.toNat - 0x10000) % 0x400).toUInt16 = true := by
      rw [isLow_iff, hl]
      omega
    have hpair : pair (0xD800 + (ch.toNat - 0x10000) / 0x400).toUInt16
        (0xDC00 + (ch.toNat - 0x10000) % 0x400).toUInt16 = ch := by
      rw [pair, hh, hl]
      have hsum : 0x10000 + (0xD800 + (ch.toNat - 0x10000) / 0x400 - 0xD800) * 0x400 +
          (0xDC00 + (ch.toNat - 0x10000) % 0x400 - 0xDC00) = ch.toNat := by omega
      rw [hsum, Char.ofNat_toNat]
    rw [List.cons_append, List.singleton_append, decodeUnits, hhigh, hlow, hpair]
    rfl

theorem decode_encode (cs : List Char) : decode order (encode order cs) = cs := by
  have hbytes : encode order cs = (cs.flatMap encodeChar).flatMap (unitBytes order) :=
    List.flatMap_assoc.symm
  have hunits : decodeUnits (cs.flatMap encodeChar) = cs := by
    induction cs with
    | nil => rfl
    | cons c cs ih => rw [List.flatMap_cons, decodeUnits_encodeChar, ih List.flatMap_assoc.symm]
  rw [decode, hbytes, units_flatMap, hunits]
  exact List.append_nil cs

end Utf16

/-! ### All charsets -/

/-- A character, or `?` if it comes after the last one that a charset can write. -/
def orQuestion (last : Nat) (ch : Char) : Char := if last < ch.toNat then '?' else ch

/-- What is left of a text that a charset has written. -/
def Charset.legible (c : Charset) (cs : List Char) : List Char :=
  match c with
  | .ascii => cs.map (orQuestion 0x7F)
  | .latin1 => cs.map (orQuestion 0xFF)
  | .utf8 | .utf16 _ => cs

namespace Charset

theorem byteBelow_orQuestion (last : Nat) (h : 63 ≤ last) (ch : Char) :
    byteBelow (last + 1) (orQuestion last ch) = byteBelow (last + 1) ch := by
  unfold orQuestion byteBelow
  split
  · next hlt =>
    have hq : '?'.toNat < last + 1 := Nat.lt_succ_of_le h
    rw [if_pos hq, if_neg (by omega)]
    rfl
  · rfl

theorem ofNat_byteBelow {last : Nat} (hlast : last < 256) (ch : Char) :
    Char.ofNat (byteBelow (last + 1) ch).toNat = orQuestion last ch := by
  unfold byteBelow orQuestion
  split
  · next h =>
    rw [UInt8.toNat_ofNat_of_lt' (Nat.lt_of_lt_of_le h hlast), Char.ofNat_toNat,
      if_neg (Nat.not_lt.mpr (Nat.le_of_lt_succ h))]
  · next h =>
    rw [if_pos (by omega)]
    rfl

theorem asciiChar_byteBelow (ch : Char) : asciiChar (byteBelow 0x80 ch) = orQuestion 0x7F ch := by
  have hlt : byteBelow 0x80 ch < 0x80 := by
    rw [UInt8.lt_iff_toNat_lt, byteBelow]
    split
    · next h =>
      rw [UInt8.toNat_ofNat_of_lt' (Nat.lt_trans h (by decide))]
      exact h
    · decide
  rw [asciiChar, if_pos hlt]
  exact ofNat_byteBelow (by decide) ch

theorem byteBelow_latin1Char (b : UInt8) : byteBelow 0x100 (latin1Char b) = b := by
  have hb : b.toNat < 256 := b.toNat_lt
  have hvalid : b.toNat.isValidChar := .inl (by omega)
  have hchar : (Char.ofNat b.toNat).toNat = b.toNat := by
    rw [Char.ofNat, dif_pos hvalid]
    rfl
  rw [byteBelow, latin1Char, hchar, if_pos hb]
  exact UInt8.ofNat_toNat

theorem decode_encode (c : Charset) (cs : List Char) : c.decode (c.encode cs) = c.legible cs := by
  cases c with
  | ascii =>
    show (cs.map (byteBelow 0x80)).map asciiChar = _
    rw [List.map_map]
    exact List.map_congr_left fun ch _ => asciiChar_byteBelow ch
  | latin1 =>
    show (cs.map (byteBelow 0x100)).map latin1Char = _
    rw [List.map_map]
    exact List.map_congr_left fun ch _ => ofNat_byteBelow (by decide) ch
  | utf8 => exact Utf8.decode_encode cs
  | utf16 order => exact Utf16.decode_encode order cs

theorem encode_legible (c : Charset) (cs : List Char) : c.encode (c.legible cs) = c.encode cs := by
  cases c with
  | ascii =>
    show (cs.map (orQuestion 0x7F)).map (byteBelow 0x80) = cs.map (byteBelow 0x80)
    rw [List.map_map]
    exact List.map_congr_left fun ch _ => byteBelow_orQuestion 0x7F (by decide) ch
  | latin1 =>
    show (cs.map (orQuestion 0xFF)).map (byteBelow 0x100) = cs.map (byteBelow 0x100)
    rw [List.map_map]
    exact List.map_congr_left fun ch _ => byteBelow_orQuestion 0xFF (by decide) ch
  | utf8 => rfl
  | utf16 order => rfl

theorem encode_decode_latin1 (bs : Bytes) : latin1.encode (latin1.decode bs) = bs := by
  show (bs.map latin1Char).map (byteBelow 0x100) = bs
  rw [List.map_map]
  exact (List.map_congr_left fun b _ => byteBelow_latin1Char b).trans (List.map_id bs)

/-- A byte string survives being read and written again exactly if the charset writes it. -/
theorem encode_decode_eq_iff (c : Charset) (bs : Bytes) :
    c.encode (c.decode bs) = bs ↔ ∃ cs, bs = c.encode cs := by
  constructor
  · intro h
    exact ⟨_, h.symm⟩
  · rintro ⟨cs, rfl⟩
    rw [decode_encode, encode_legible]

/-- Reading gives back what was written, but for what a charset cannot write, and so does the
display of a sequence; and the byte strings that are left unchanged by reading and writing are those
that the charset writes, for Latin-1 all of them. -/
theorem round_trip (c : Charset) :
    (∀ cs, c.decode (c.encode cs) = c.legible cs) ∧
    (∀ cs, (ByteSeq.encode c cs).display = String.ofList (c.legible cs)) ∧
    (∀ bs, c.encode (c.decode bs) = bs ↔ ∃ cs, bs = c.encode cs) ∧
    ∀ bs, ∃ cs, bs = latin1.encode cs := by
  refine ⟨c.decode_encode, ?_, c.encode_decode_eq_iff, ?_⟩
  · intro cs
    show String.ofList (c.decode (c.encode cs)) = _
    rw [decode_encode]
  · intro bs
    exact ⟨_, (encode_decode_latin1 bs).symm⟩

end Charset
end StoreClient

import StoreClient.Bytes

/-! # UTF-8

`followers` is the grammar: which bytes may follow a lead byte, one range for each.  `pieces` scans
a byte string from the front into text and the longest pieces that no well-formed unit continues,
and `decode` replaces each of these by U+FFFD.  `missing` tells what the beginning of a unit lacks.
`encodeChar` writes a character. -/

namespace StoreClient

/-- U+FFFD, which stands for input that encodes nothing. -/
def replacement : Char := '\ufffd'

namespace Utf8

/-- An inclusive range of bytes. -/
structure Range where
  low : UInt8
  high : UInt8
  deriving DecidableEq, Repr

def Range.contains (r : Range) (b : UInt8) : Bool := r.low ≤ b && b ≤ r.high

/-- The range of an ordinary continuation byte. -/
def tail : Range := ⟨0x80, 0xBF⟩

/-- The ranges of the bytes that follow a lead byte; `none` for a byte that leads no unit. -/
def followers (b : UInt8) : Option (List Range) :=
  if b < 0x80 then some []
  else if b < 0xC2 then none
  else if b < 0xE0 then some [tail]
  else if b = 0xE0 then some [⟨0xA0, 0xBF⟩, tail]
  else if b = 0xED then some [⟨0x80, 0x9F⟩, tail]
  else if b < 0xF0 then some [tail, tail]
  else if b = 0xF0 then some [⟨0x90, 0xBF⟩, tail, tail]
  else if b < 0xF4 then some [tail, tail, tail]
  else if b = 0xF4 then some [⟨0x80, 0x8F⟩, tail, tail]
  else none

/-- The code point that the bytes of a unit carry. -/
def codePoint : Bytes → Nat
  | [a] => a.toNat
  | [a, b] => a.toNat % 32 * 64 + b.toNat % 64
  | [a, b, c] => a.toNat % 16 * 4096 + b.toNat % 64 * 64 + c.toNat % 64
  | [a, b, c, d] =>
    a.toNat % 8 * 262144 + b.toNat % 64 * 4096 + c.toNat % 64 * 64 + d.toNat % 64
  | _ => replacement.toNat

/-- The character of a whole unit. -/
def charOf (unit : Bytes) : Char := Char.ofNat (codePoint unit)

/-- The unit of a character. -/
def encodeChar (ch : Char) : Bytes :=
  let n := ch.toNat
  if n < 0x80 then [n.toUInt8]
  else if n < 0x800 then [(192 + n / 64).toUInt8, (128 + n % 64).toUInt8]
  else if n < 0x10000 then
    [(224 + n / 4096).toUInt8, (128 + n / 64 % 64).toUInt8, (128 + n % 64).toUInt8]
  else
    [(240 + n / 262144).toUInt8, (128 + n / 4096 % 64).toUInt8, (128 + n / 64 % 64).toUInt8,
      (128 + n % 64).toUInt8]

def encode (cs : List Char) : Bytes := cs.flatMap encodeChar

/-! ### The scan -/

/-- The bytes from the front that fit the ranges one by one, and what comes after them. -/
def spanFit : List Range → Bytes → Bytes × Bytes
  | r :: rs, b :: bs =>
    if r.contains b then ((b :: (spanFit rs bs).1), (spanFit rs bs).2) else ([], b :: bs)
  | _, bs => ([], bs)

theorem length_spanFit_snd_le (rs : List Range) (bs : Bytes) :
    (spanFit rs bs).2.length ≤ bs.length := by
  fun_induction spanFit rs bs with
  | case1 r rs b bs h ih => exact Nat.le_succ_of_le ih
  | case2 => exact Nat.le_refl _
  | case3 => exact Nat.le_refl _

/-- A piece of a byte string: text, and the bytes right after it that are no unit.  Only the last
piece may be without such bytes. -/
structure Piece where
  valid : List Char
  invalid : Bytes
  deriving DecidableEq, Repr

/-- The pieces with one more character in front. -/
def Piece.cons (ch : Char) : List Piece → List Piece
  | [] => [⟨[ch], []⟩]
  | p :: ps => ⟨ch :: p.valid, p.invalid⟩ :: ps

/-- The pieces of a byte string: a unit gives its character, and a byte that leads no unit ends a
piece, as does a lead byte with the followers that fit when the next byte does not. -/
def pieces : Bytes → List Piece
  | [] => []
  | b :: bs =>
    match followers b with
    | none => ⟨[], [b]⟩ :: pieces bs
    | some rs =>
      let begun := (spanFit rs bs).1
      let rest := (spanFit rs bs).2
      if begun.length = rs.length then Piece.cons (charOf (b :: begun)) (pieces rest)
      else ⟨[], b :: begun⟩ :: pieces rest
termination_by bs => bs.length
decreasing_by
  · simp
  all_goals
    have := length_spanFit_snd_le rs bs
    simp only [List.length_cons]
    omega

/-- The text of a piece, with U+FFFD for what is no unit. -/
def Piece.text (p : Piece) : List Char :=
  p.valid ++ if p.invalid.isEmpty then [] else [replacement]

/-- The text of a byte string. -/
def decode (bs : Bytes) : List Char := (pieces bs).flatMap Piece.text

/-! ### What a unit lacks -/

/-- The ranges that the bytes leave open; `none` once a byte does not fit. -/
def unfilled : List Range → Bytes → Option (List Range)
  | rs, [] => some rs
  | [], _ :: _ => none
  | r :: rs, b :: bs => if r.contains b then unfilled rs bs else none

/-- What a byte string lacks to be one unit: nothing for a unit, some ranges for the beginning of
one, `none` for anything else. -/
def missing : Bytes → Option (List Range)
  | [] => none
  | b :: bs => (followers b).bind (unfilled · bs)

/-- Whether more bytes could make a unit of what ends the piece. -/
def Piece.truncated (p : Piece) : Bool :=
  match missing p.invalid with
  | some (_ :: _) => true
  | _ => false

end Utf8
end StoreClient

/-! # Decimal numerals

`Decimal.digits` writes a natural number with no leading zero, `Decimal.ofInt` puts a minus sign
before the digits of a negative one, and `Decimal.padded` fills with zeros up to a width.
`Decimal.value` reads digits back. -/

namespace StoreClient.Decimal

/-- The digits of a number, most significant first. -/
def digits (n : Nat) : List Char := Nat.toDigits 10 n

/-- The number that a list of digits writes. -/
def value (cs : List Char) : Nat := Nat.ofDigitChars 10 cs 0

/-- A sign for negative numbers, then the digits. -/
def ofInt (z : Int) : List Char :=
  if z < 0 then '-' :: digits z.natAbs else digits z.natAbs

/-- The digits, with zeros in front up to `width` characters. -/
def padded (width n : Nat) : List Char :=
  List.replicate (width - (digits n).length) '0' ++ digits n

/-- The digits as text. -/
def text (n : Nat) : String := String.ofList (digits n)

end StoreClient.Decimal

import StoreClient.Text.Printable

/-! # Quoted text

`Quoted.quote` writes a text between double quotes so that it stays on one line: a quote and a
backslash get a backslash, tab, line feed, carriage return and NUL their short escapes, and a
character that does not print its code point in braces.  `Quoted.escapeByte` does the same for raw
bytes: what is not printable ASCII is written as two hexadecimal digits. -/

namespace StoreClient.Text.Quoted

/-- The lower-case hexadecimal digit below sixteen. -/
def hexDigit (d : Nat) : Char := if d < 10 then Char.ofNat (48 + d) else Char.ofNat (87 + d)

/-- Hexadecimal digits without leading zeros. -/
def hexDigits (n : Nat) : List Char :=
  if n < 16 then [hexDigit n] else hexDigits (n / 16) ++ [hexDigit (n % 16)]

/-- One character between double quotes. -/
def escapeChar (c : Char) : List Char :=
  if c = '"' then ['\\', '"']
  else if c = '\\' then ['\\', '\\']
  else if c = '\n' then ['\\', 'n']
  else if c = '\r' then ['\\', 'r']
  else if c = '\t' then ['\\', 't']
  else if c.toNat = 0 then ['\\', '0']
  else if Printable.prints c then [c]
  else ['\\', 'u', '\x7b'] ++ hexDigits c.toNat ++ ['\x7d']

def quote (cs : List Char) : List Char := '"' :: cs.flatMap escapeChar ++ ['"']

/-- One byte of a byte string written in ASCII. -/
def escapeByte (b : UInt8) : List Char :=
  if b = 9 then ['\\', 't']
  else if b = 10 then ['\\', 'n']
  else if b = 13 then ['\\', 'r']
  else if b = 34 then ['\\', '"']
  else if b = 39 then ['\\', Char.ofNat 39]
  else if b = 92 then ['\\', '\\']
  else if 32 ≤ b ∧ b < 127 then [Char.ofNat b.toNat]
  else ['\\', 'x', hexDigit (b.toNat / 16), hexDigit (b.toNat % 16)]

end StoreClient.Text.Quoted

import StoreClient.Charset.Utf8

/-! # UTF-16

A unit is a 16-bit word of two bytes in either order; a character past U+FFFF is a high and a low
surrogate.  `decode` reads a whole list of units and replaces a surrogate without its partner by
U+FFFD; `feed` reads one unit at a time and holds back a high surrogate. -/

namespace StoreClient

/-- Which byte of a unit comes first. -/
inductive ByteOrder where
  | big
  | little
  deriving DecidableEq, Repr

namespace Utf16

/-- The unit of two bytes in the order in which they come. -/
def unit (order : ByteOrder) (first second : UInt8) : UInt16 :=
  match order with
  | .big => first.toUInt16 * 256 + second.toUInt16
  | .little => second.toUInt16 * 256 + first.toUInt16

/-- The bytes of a unit. -/
def unitBytes (order : ByteOrder) (u : UInt16) : Bytes :=
  match order with
  | .big => [(u / 256).toUInt8, u.toUInt8]
  | .little => [u.toUInt8, (u / 256).toUInt8]

def isHigh (u : UInt16) : Bool := 0xD800 ≤ u && u < 0xDC00

def isLow (u : UInt16) : Bool := 0xDC00 ≤ u && u < 0xE000

/-- The character of a surrogate pair. -/
def pair (high low : UInt16) : Char :=
  Char.ofNat (0x10000 + (high.toNat - 0xD800) * 0x400 + (low.toNat - 0xDC00))

/-- The character of a unit that stands alone. -/
def single (u : UInt16) : Char :=
  if isHigh u || isLow u then replacement else Char.ofNat u.toNat

/-- The units of a character. -/
def encodeChar (c : Char) : List UInt16 :=
  let n := c.toNat
  if n < 0x10000 then [n.toUInt16]
  else [(0xD800 + (n - 0x10000) / 0x400).toUInt16, (0xDC00 + (n - 0x10000) % 0x400).toUInt16]

def encode (order : ByteOrder) (cs : List Char) : Bytes :=
  cs.flatMap fun c => (encodeChar c).flatMap (unitBytes order)

/-! ### The whole string at once -/

/-- The units of a byte string, and the byte that is left over if there is one. -/
def units (order : ByteOrder) : Bytes → List UInt16 × Bytes
  | a :: b :: bs => (unit order a b :: (units order bs).1, (units order bs).2)
  | odd => ([], odd)

def decodeUnits : List UInt16 → List Char
  | [] => []
  | [u] => [single u]
  | u :: v :: us =>
    if isHigh u && isLow v then pair u v :: decodeUnits us
    else single u :: decodeUnits (v :: us)

/-- The text of a byte string; a byte left over is one more U+FFFD. -/
def decode (order : ByteOrder) (bs : Bytes) : List Char :=
  decodeUnits (units order bs).1 ++ if (units order bs).2.isEmpty then [] else [replacement]

/-! ### Unit by unit -/

/-- A unit with no high surrogate before it. -/
def start (u : UInt16) : Option UInt16 × List Char :=
  if isHigh u then (some u, []) else (none, [single u])

/-- The next unit after what was held back. -/
def feed (held : Option UInt16) (u : UInt16) : Option UInt16 × List Char :=
  match held with
  | none => start u
  | some high =>
    if isLow u then (none, [pair high u]) else ((start u).1, replacement :: (start u).2)

end Utf16
end StoreClient

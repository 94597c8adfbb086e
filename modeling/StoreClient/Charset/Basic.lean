import StoreClient.Charset.Utf16
import StoreClient.Error

/-! # Character sets

A charset writes text as bytes and reads any bytes as text: what a charset cannot write becomes
`?`, and what does not decode becomes U+FFFD.  Charsets have registered names and a few aliases,
compared without regard to ASCII case. -/

namespace StoreClient

inductive Charset where
  /-- Seven-bit ASCII. -/
  | ascii
  /-- The first 256 code points, a byte each. -/
  | latin1
  | utf8
  | utf16 (order : ByteOrder)
  deriving DecidableEq, Repr

namespace Charset

/-- The charset of text that says nothing else. -/
def standard : Charset := utf8

/-- The registered name. -/
def name : Charset → String
  | ascii => "US-ASCII"
  | latin1 => "ISO-8859-1"
  | utf8 => "UTF-8"
  | utf16 .big => "UTF-16BE"
  | utf16 .little => "UTF-16LE"

/-- The charset of a registered name or an alias, in any ASCII case. -/
def ofName (s : String) : Except Error Charset :=
  match String.ofList (s.toList.map Char.toUpper) with
  | "US-ASCII" | "ASCII" => .ok ascii
  | "ISO-8859-1" | "LATIN1" | "LATIN-1" => .ok latin1
  | "UTF-8" | "UTF8" => .ok utf8
  | "UTF-16BE" => .ok (utf16 .big)
  | "UTF-16LE" => .ok (utf16 .little)
  | _ => .error (.unsupportedCharset s)

/-- The character of a byte in ASCII. -/
def asciiChar (b : UInt8) : Char := if b < 0x80 then Char.ofNat b.toNat else replacement

def latin1Char (b : UInt8) : Char := Char.ofNat b.toNat

/-- The byte of a character in a charset of the code points below `limit`. -/
def byteBelow (limit : Nat) (c : Char) : UInt8 := if c.toNat < limit then c.toNat.toUInt8 else 63

/-- The bytes of a text. -/
def encode (c : Charset) (cs : List Char) : Bytes :=
  match c with
  | ascii => cs.map (byteBelow 0x80)
  | latin1 => cs.map (byteBelow 0x100)
  | utf8 => Utf8.encode cs
  | utf16 order => Utf16.encode order cs

/-- The text of a byte string that lies in one piece. -/
def decode (c : Charset) (bs : Bytes) : List Char :=
  match c with
  | ascii => bs.map asciiChar
  | latin1 => bs.map latin1Char
  | utf8 => Utf8.decode bs
  | utf16 order => Utf16.decode order bs

end Charset
end StoreClient

import StoreClient.Charset.Basic

/-! # Decoding in pieces

A `Decoder` reads bytes that arrive in chunks.  Between chunks it carries the bytes of a unit that
has begun, which it joins with the next chunk, and for UTF-16 a high surrogate that waits for its
partner.  `finish` replaces what is still carried by U+FFFD. -/

namespace StoreClient

/-- An incremental decoder. -/
structure Decoder where
  charset : Charset
  /-- The text so far. -/
  out : String := ""
  /-- The bytes of a unit that has begun. -/
  pending : Bytes := []
  /-- A high surrogate without its partner so far. -/
  high : Option UInt16 := none
  deriving DecidableEq, Repr

def Charset.decoder (c : Charset) : Decoder where
  charset := c

namespace Decoder

/-- Puts characters at the end of the text. -/
def emit (d : Decoder) (cs : List Char) : Decoder := { d with out := cs.foldl String.push d.out }

/-! ### UTF-8 -/

/-- Reads the pieces of a scan; what ends the last one is kept if more bytes could complete it. -/
def pushPieces (d : Decoder) : List Utf8.Piece → Decoder
  | [] => d
  | p :: ps =>
    let d := d.emit p.valid
    if p.invalid.isEmpty then d.pushPieces ps
    else if ps.isEmpty && p.truncated then { d with pending := d.pending ++ p.invalid }
    else (d.emit [replacement]).pushPieces ps

/-- Scans what is carried together with the next chunk. -/
def pushUtf8 (d : Decoder) (chunk : Bytes) : Decoder :=
  if d.pending.isEmpty then d.pushPieces (Utf8.pieces chunk)
  else { d with pending := [] }.pushPieces (Utf8.pieces (d.pending ++ chunk))

/-! ### UTF-16 -/

def pushUnit (d : Decoder) (u : UInt16) : Decoder :=
  { d with high := (Utf16.feed d.high u).1 }.emit (Utf16.feed d.high u).2

/-- Reads bytes that start at a unit and keeps an odd last one. -/
def pushUnits (order : ByteOrder) (d : Decoder) (bs : Bytes) : Decoder :=
  let (us, odd) := Utf16.units order bs
  us.foldl pushUnit { d with pending := d.pending ++ odd }

/-- Completes the unit that is carried, and reads the rest of the chunk. -/
def pushUtf16 (order : ByteOrder) (d : Decoder) (chunk : Bytes) : Decoder :=
  match d.pending, chunk with
  | [], chunk => d.pushUnits order chunk
  | _ :: _, [] => d
  | first :: _, second :: rest =>
    ({ d with pending := [] }.pushUnit (Utf16.unit order first second)).pushUnits order rest

/-! ### All charsets -/

/-- Reads the next chunk. -/
def push (d : Decoder) (chunk : Bytes) : Decoder :=
  match d.charset with
  | .ascii => d.emit (chunk.map Charset.asciiChar)
  | .latin1 => d.emit (chunk.map Charset.latin1Char)
  | .utf8 => d.pushUtf8 chunk
  | .utf16 order => d.pushUtf16 order chunk

/-- The text of all that was read. -/
def finish (d : Decoder) : String :=
  let d := if d.high.isSome then d.emit [replacement] else d
  (if d.pending.isEmpty then d else d.emit [replacement]).out

end Decoder
end StoreClient

import StoreClient.ByteSeq.Chunks
import StoreClient.Charset.Decoder
import StoreClient.Text.Quoted

/-! # Sequences as text

`decode` reads the bytes in a charset, at once where they lie in one piece and run by run
otherwise.  `display` decodes in the sequence's own charset; `debug` names the shape and spells
the bytes in ASCII. -/

namespace StoreClient.ByteSeq

def decode (s : ByteSeq) (c : Charset) : String :=
  match s.contiguous? with
  | some bs => String.ofList (c.decode bs)
  | none => (s.chunks.foldl Decoder.push c.decoder).finish

/-- The text in the charset that the sequence remembers, or in the standard one. -/
def display (s : ByteSeq) : String := s.decode (s.charset?.getD Charset.standard)

/-- The name of the shape. -/
def kind : ByteSeq → String
  | empty => "Empty"
  | array _ => "Array"
  | buffer _ => "Buffer"
  | text _ => "Text"
  | concat .. => "Concat"
  | slice .. => "Slice"

/-- The shape and the bytes, each byte escaped unless it is printable ASCII. -/
def debug (s : ByteSeq) : String :=
  let spell := fun (out : String) (run : Bytes) =>
    run.foldl (fun out b => (Text.Quoted.escapeByte b).foldl String.push out) out
  s.chunks.foldl spell (s.kind ++ "(b\"") ++ "\")"

end StoreClient.ByteSeq

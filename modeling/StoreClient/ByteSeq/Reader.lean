import StoreClient.ByteSeq.Output
import StoreClient.ByteSeq.Text

/-! # Reading with a cursor

A `SeqReader` reads a sequence from a position that only moves forward and never past the end.  A
read of more bytes than remain panics and consumes nothing. -/

namespace StoreClient

/-- A sequence and a position in it. -/
structure SeqReader where
  seq : ByteSeq
  position : Nat
  position_le : position ≤ seq.length

def ByteSeq.reader (s : ByteSeq) : SeqReader := ⟨s, 0, Nat.zero_le _⟩

namespace SeqReader

def remaining (r : SeqReader) : Nat := r.seq.length - r.position

/-- The run of bytes at the position; nothing at the end. -/
def chunk (r : SeqReader) : Bytes :=
  if r.seq.length ≤ r.position then [] else r.seq.chunkAt r.position

/-- The runs from the position on, as many as there are slots. -/
def chunksVectored (r : SeqReader) (slots : Nat) : List Bytes :=
  (r.seq.chunksFrom r.position).takeRuns slots

/-- Moves the position forward. -/
def advance (r : SeqReader) (n : Nat) : Outcome SeqReader :=
  if h : n ≤ r.remaining then
    .ok ⟨r.seq, r.position + n, by have := r.position_le; unfold remaining at h; omega⟩
  else .error (.panic (.advancePastEnd n r.remaining))

/-- Reads `n` bytes run by run; `acc` holds what was read, last byte first. -/
def collect (r : SeqReader) (n : Nat) (acc : Bytes) : Outcome (Bytes × SeqReader) :=
  if _hn : n = 0 then .ok (acc.reverse, r)
  else
    let run := r.chunk.take n
    if _h : run.length = 0 then .error (.panic .emptyChunk)
    else match r.advance run.length with
      | .error e => .error e
      | .ok r' => collect r' (n - run.length) (run.reverseAux acc)
termination_by n
decreasing_by exact Nat.sub_lt (Nat.pos_of_ne_zero _hn) (Nat.pos_of_ne_zero _h)

/-- Reads exactly `n` bytes. -/
def read (r : SeqReader) (n : Nat) : Outcome (Bytes × SeqReader) :=
  if n ≤ r.remaining then r.collect n []
  else .error (.panic (.shortRead n r.remaining))

/-- Reads exactly `n` bytes into an array of their own, which makes room for them first. -/
def gather (r : SeqReader) (n : Nat) : Outcome (Bytes × SeqReader) :=
  if n ≤ r.remaining ∧ arrayMax < n then .error (.panic (.arrayTooLarge n)) else r.read n

/-- The value of bytes, most significant first. -/
def bigEndian (bs : Bytes) : Nat := bs.foldl (fun v b => 256 * v + b.toNat) 0

/-- The value of bytes, least significant first. -/
def littleEndian (bs : Bytes) : Nat := bigEndian bs.reverse

/-- Reads one byte. -/
def readU8 (r : SeqReader) : Outcome (Nat × SeqReader) :=
  (r.read 1).map fun (bs, r) => (bigEndian bs, r)

/-- Reads two bytes, most significant first. -/
def readU16 (r : SeqReader) : Outcome (Nat × SeqReader) :=
  (r.read 2).map fun (bs, r) => (bigEndian bs, r)

/-- Reads four bytes, least significant first. -/
def readU32LE (r : SeqReader) : Outcome (Nat × SeqReader) :=
  (r.read 4).map fun (bs, r) => (littleEndian bs, r)

/-- The bytes from the position on, which a copy of the reader reads. -/
def rest (r : SeqReader) : Outcome Bytes := (r.gather r.remaining).map Prod.fst

def debug (r : SeqReader) : String :=
  "SeqReader \x7b seq: " ++ r.seq.debug ++ ", pos: " ++ Decimal.text r.position ++ " \x7d"

end SeqReader
end StoreClient

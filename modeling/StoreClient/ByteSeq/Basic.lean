import StoreClient.Buffer
import StoreClient.Charset.Basic

/-! # Byte sequences

A `ByteSeq` is an immutable sequence of bytes in one of six shapes: nothing, an array, a window
into a buffer, encoded text, a lazy concatenation, or a range of another sequence.  Operations
leave out what is empty and never nest a range in a range, so that `tryConcat` and `subSeq` take
constant time.  A length is at most `wordMax`; `tryConcat` alone can pass it, and refuses. -/

namespace StoreClient

/-- A window into a buffer. -/
structure BufferView where
  buffer : Buffer
  offset : Nat
  length : Nat

/-- The window in one piece, if the buffer shows itself in one piece. -/
def BufferView.contiguous? (v : BufferView) : Option Bytes :=
  v.buffer.contiguous?.map (·.window v.offset (v.offset + v.length))

/-- Text in bytes that remembers its charset. -/
structure EncodedText where
  bytes : Bytes
  charset : Charset
  deriving DecidableEq, Repr

/-- An immutable sequence of bytes. -/
inductive ByteSeq where
  | empty
  | array (bytes : Bytes)
  | buffer (view : BufferView)
  | text (text : EncodedText)
  /-- Two sequences end to end, with their joint length. -/
  | concat (head tail : ByteSeq) (length : Nat)
  /-- A range of a concatenation. -/
  | slice (inner : ByteSeq) (offset length : Nat)

namespace ByteSeq

/-! ### Sources -/

/-- All of a buffer, as long as it says it is. -/
def ofBuffer (b : Buffer) : ByteSeq := buffer ⟨b, 0, b.size⟩

/-- Text in a charset. -/
def encode (c : Charset) (cs : List Char) : ByteSeq := text ⟨c.encode cs, c⟩

/-- Text in the standard charset. -/
def ofString (s : String) : ByteSeq := encode Charset.standard s.toList

/-! ### Length and pieces -/

def length : ByteSeq → Nat
  | empty => 0
  | array bs => bs.length
  | buffer v => v.length
  | text t => t.bytes.length
  | concat _ _ n => n
  | slice _ _ n => n

def isEmpty (s : ByteSeq) : Bool := s.length == 0

/-- The concatenation; an empty operand is left out. -/
def tryConcat (head tail : ByteSeq) : Except Error ByteSeq :=
  if head.isEmpty then .ok tail
  else if tail.isEmpty then .ok head
  else match checkedAdd head.length tail.length with
    | some n => .ok (concat head tail n)
    | none => .error (.lengthOverflow head.length tail.length)

/-- The concatenation where the caller vouches for the length. -/
def append (head tail : ByteSeq) : Outcome ByteSeq :=
  match tryConcat head tail with
  | .ok s => .ok s
  | .error _ => .error (.panic (.lengthOverflow head.length tail.length))

/-- All sequences end to end, from the left. -/
def concatAll (parts : List ByteSeq) : Outcome ByteSeq := parts.foldlM append empty

/-- The bytes at positions `start ≤ i < stop`, without copying. -/
def subSeq (s : ByteSeq) (start stop : Nat) : Except Error ByteSeq :=
  if stop < start ∨ s.length < stop then .error (.outOfBounds start stop s.length)
  else if start = stop then .ok empty
  else if start = 0 ∧ stop = s.length then .ok s
  else .ok <| match s with
    | empty => empty
    | array bs => array (bs.window start stop)
    | text t => text ⟨t.bytes.window start stop, t.charset⟩
    | buffer v => buffer ⟨v.buffer, v.offset + start, stop - start⟩
    | slice inner offset _ => slice inner (offset + start) (stop - start)
    | concat .. => slice s start (stop - start)

/-! ### Bytes in place -/

/-- The bytes as one array, if they lie in one. -/
def contiguous? : ByteSeq → Option Bytes
  | empty => some []
  | array bs => some bs
  | text t => some t.bytes
  | buffer v => v.contiguous?
  | concat .. => none
  | slice .. => none

def hasArray (s : ByteSeq) : Bool := s.contiguous?.isSome

def toArray (s : ByteSeq) : Except Error Bytes :=
  match s.contiguous? with
  | some bs => .ok bs
  | none => .error .unsupportedRepresentation

/-- The run of bytes from `pos` on that ends by `stop`. -/
def runAt : ByteSeq → Nat → Nat → Bytes
  | empty, _, _ => []
  | array bs, pos, stop => bs.window pos stop
  | text t, pos, stop => t.bytes.window pos stop
  | buffer v, pos, stop => (v.buffer.chunkAt (v.offset + pos)).take (stop - pos)
  | slice inner offset _, pos, stop => inner.runAt (pos + offset) (stop + offset)
  | concat head tail _, pos, stop =>
    if pos < head.length then head.runAt pos (min stop head.length)
    else tail.runAt (pos - head.length) (stop - head.length)

/-- The run of bytes that starts at a position. -/
def chunkAt (s : ByteSeq) (pos : Nat) : Bytes := s.runAt pos s.length

/-- The byte at a position. -/
def get (s : ByteSeq) (i : Nat) : Outcome UInt8 :=
  if s.length ≤ i then .error (.error (.outOfBounds i (saturatingAdd i 1) s.length))
  else match s.chunkAt i with
    | b :: _ => .ok b
    | [] => .error (.panic .emptyChunk)

/-- The charset of encoded text. -/
def charset? : ByteSeq → Option Charset
  | text t => some t.charset
  | _ => none

@[simp] theorem length_buffer (v : BufferView) : (buffer v).length = v.length := rfl
@[simp] theorem length_concat (h t : ByteSeq) (n : Nat) : (concat h t n).length = n := rfl
@[simp] theorem length_slice (s : ByteSeq) (o n : Nat) : (slice s o n).length = n := rfl

theorem isEmpty_iff {s : ByteSeq} : s.isEmpty = true ↔ s.length = 0 := by simp [isEmpty]

end ByteSeq
end StoreClient

import StoreClient.ByteSeq.Chunks

/-! # Output

`writeInto` fills limited room with as many bytes as fit; `copyInto` takes a run only whole.  Both
report what was written and whether that is everything.  `hashFeed` is what a sequence feeds a
hash function: its length, then blocks of a fixed size, so that the boundaries of the runs do not
show. -/

namespace StoreClient

/-- What an output took. -/
structure Written where
  /-- The runs that were taken, last first. -/
  taken : List Bytes := []
  /-- The room that is left. -/
  room : Nat

namespace Written

/-- All bytes taken, in order. -/
def bytes (w : Written) : Bytes := w.taken.reverse.flatten

/-- Takes of a run what fits; a run cut short ends the output. -/
def fill (w : Written) (run : Bytes) : Except Written Written :=
  if run.length ≤ w.room then .ok ⟨run :: w.taken, w.room - run.length⟩
  else .error ⟨run.take w.room :: w.taken, 0⟩

/-- Takes a whole run; one that does not fit ends the output. -/
def put (w : Written) (run : Bytes) : Except Written Written :=
  if run.length ≤ w.room then .ok ⟨run :: w.taken, w.room - run.length⟩ else .error w

end Written

/-- One call on a hash function. -/
inductive HashCall where
  | length (n : Nat)
  | write (bytes : Bytes)
  deriving DecidableEq, Repr

/-- The bytes of a full block. -/
def hashBlock : Nat := 64

/-- A hash input under way: the calls so far, last first, and the bytes of a block begun. -/
structure HashInput where
  calls : List HashCall
  begun : Bytes := []

namespace HashInput

/-- Reads a run: full blocks are passed on. -/
def absorb (h : HashInput) (run : Bytes) : HashInput :=
  let (full, rest) := (h.begun ++ run).blocks hashBlock (by decide)
  ⟨(full.map HashCall.write).reverse ++ h.calls, rest⟩

/-- All the calls, the unfinished block last. -/
def finish (h : HashInput) : List HashCall := (.write h.begun :: h.calls).reverse

end HashInput

namespace ByteSeq

/-- Writes into `room` bytes: the output, and whether everything fitted. -/
def writeInto (s : ByteSeq) (room : Nat) : Written × Bool :=
  match s.chunks.foldUntil Written.fill ⟨[], room⟩ with
  | .ok w => (w, true)
  | .error w => (w, false)

/-- Copies runs into `room` bytes: the output, and whether everything fitted. -/
def copyInto (s : ByteSeq) (room : Nat) : Written × Bool :=
  match s.chunks.foldUntil Written.put ⟨[], room⟩ with
  | .ok w => (w, true)
  | .error w => (w, false)

/-- The calls that a sequence makes on a hash function. -/
def hashFeed (s : ByteSeq) : List HashCall :=
  (s.chunks.foldl HashInput.absorb ⟨[.length s.length], []⟩).finish

end ByteSeq
end StoreClient

import StoreClient.ByteSeq.Chunks

/-! # Building expressions

An `Expr` says how to build a sequence from byte strings, buffers, text and earlier sequences.
`Expr.eval` builds it and fails as the operations do.  `doubled`, `chained` and `rolled` are long
and deep shapes made from the same operations. -/

namespace StoreClient

namespace ByteSeq

/-- Applies `f` to `0, 1, …, n - 1` in turn; `i` counts the rounds. -/
def rounds {α : Type} (f : Nat → α → Outcome α) : (n i : Nat) → α → Outcome α
  | 0, _, s => .ok s
  | n + 1, i, s =>
    match f i s with
    | .ok s' => rounds f n (i + 1) s'
    | .error e => .error e

/-- The result of an operation that may only refuse. -/
def ofExcept {α : Type} : Except Error α → Outcome α
  | .ok a => .ok a
  | .error e => .error (.error e)

/-- The sequence joined to itself, `times` over. -/
def doubled (times : Nat) (s : ByteSeq) : Outcome ByteSeq :=
  rounds (fun _ s => ofExcept (tryConcat s s)) times 0 s

/-- The array at place `i` of a cycle of byte strings; a cycle of none has no places. -/
def leaf (parts : List Bytes) (i : Nat) : Outcome ByteSeq :=
  match parts[i % parts.length]? with
  | some bs => .ok (array bs)
  | none => .error (.panic .emptyCycle)

/-- The first `times` arrays of a cycle, joined from the left or from the right. -/
def chained (parts : List Bytes) (times : Nat) (fromLeft : Bool) : Outcome ByteSeq :=
  if fromLeft then rounds (fun i s => do append s (← leaf parts i)) times 0 empty
  else rounds (fun i s => do append (← leaf parts (times - 1 - i)) s) times 0 empty

/-- Each round appends the next array of a cycle and drops as many bytes from the front. -/
def rolled (parts : List Bytes) (times : Nat) (s : ByteSeq) : Outcome ByteSeq :=
  rounds (fun i s => do
    let part ← leaf parts i
    let t ← ofExcept (tryConcat s part)
    ofExcept (t.subSeq part.length t.length)) times 0 s

/-- How to build a sequence. -/
inductive Expr where
  | empty
  | array (bytes : Bytes)
  | buffer (buffer : Buffer)
  | text (charset : Charset) (chars : List Char)
  | append (a b : Expr)
  | tryConcat (a b : Expr)
  | concatAll (parts : List Expr)
  | sub (of : Expr) (start stop : Nat)
  | copy (of : Expr)
  /-- A sequence built before. -/
  | var (i : Nat)
  | doubled (times : Nat) (of : Expr)
  | chained (parts : List Bytes) (times : Nat) (fromLeft : Bool)
  | rolled (parts : List Bytes) (times : Nat) (of : Expr)

namespace Expr

mutual

/-- Builds the sequence; `env` holds those built before. -/
def eval (env : Array ByteSeq) : Expr → Outcome ByteSeq
  | empty => .ok .empty
  | array bs => .ok (.array bs)
  | buffer b => .ok (.ofBuffer b)
  | text c cs => .ok (.encode c cs)
  | append a b => do ByteSeq.append (← eval env a) (← eval env b)
  | tryConcat a b => do ofExcept (ByteSeq.tryConcat (← eval env a) (← eval env b))
  | concatAll parts => do ByteSeq.concatAll (← evalAll env parts)
  | sub e start stop => do ofExcept ((← eval env e).subSeq start stop)
  | copy e => do (← eval env e).copy
  | var i => .ok (env[i]?.getD .empty)
  | doubled times e => do ByteSeq.doubled times (← eval env e)
  | chained parts times fromLeft => ByteSeq.chained parts times fromLeft
  | rolled parts times e => do ByteSeq.rolled parts times (← eval env e)

def evalAll (env : Array ByteSeq) : List Expr → Outcome (List ByteSeq)
  | [] => .ok []
  | e :: es => do return (← eval env e) :: (← evalAll env es)

end

end Expr

end ByteSeq
end StoreClient

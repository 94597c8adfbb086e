import StoreClient.Decimal
import StoreClient.Duration
import StoreClient.Text.Quoted

/-! # Failures

An `Error` is a cause that a caller can react to, a `Panic` a broken promise that ends the call.
An operation that may do either returns an `Outcome`.  The wording of a cause stands in
`Error.message` and `Panic.message`, and nowhere else. -/

namespace StoreClient

/-- The three fields that an id packs. -/
inductive Field where
  | timestamp
  | workerId
  | sequence
  deriving DecidableEq, Repr

def Field.name : Field → String
  | .timestamp => "timestamp"
  | .workerId => "worker id"
  | .sequence => "sequence"

/-- Why an operation refuses its input or gives up. -/
inductive Error where
  /-- A range outside a sequence of the given length. -/
  | outOfBounds (start stop length : Nat)
  /-- Two lengths whose sum passes a word. -/
  | lengthOverflow (head tail : Nat)
  /-- No contiguous array lies behind the sequence. -/
  | unsupportedRepresentation
  | notANumber
  | unsupportedCharset (name : String)
  /-- A layout with a field of no bits. -/
  | emptyField
  /-- A layout of more than 63 bits. -/
  | tooWide (total : Nat)
  /-- A field's value outside `0..=max`. -/
  | domain (field : Field) (value : Int) (max : Nat)
  | clockRegression (behind : Duration)
  /-- Cancelled while waiting. -/
  | interrupted
  | waitTimeout (waited : Duration)
  | lockPoisoned
  deriving DecidableEq, Repr

def Error.message : Error → String
  | .outOfBounds start stop length =>
    "range " ++ Decimal.text start ++ ".." ++ Decimal.text stop ++ " out of bounds for length "
      ++ Decimal.text length
  | .lengthOverflow head tail =>
    "concatenated length " ++ Decimal.text head ++ " + " ++ Decimal.text tail
      ++ " overflows usize"
  | .unsupportedRepresentation => "sequence has no contiguous backing array"
  | .notANumber => "invalid argument: NaN has no protocol encoding"
  | .unsupportedCharset name =>
    "invalid argument: unsupported charset " ++ String.ofList (Text.Quoted.quote name.toList)
  | .emptyField => "invalid layout: every field needs at least one bit"
  | .tooWide total =>
    "invalid layout: " ++ Decimal.text total ++ " bits do not fit in a positive i64"
  | .domain field value max =>
    field.name ++ " value " ++ String.ofList (Decimal.ofInt value) ++ " outside 0..="
      ++ Decimal.text max
  | .clockRegression behind => "clock moved backward by " ++ behind.text
  | .interrupted => "generator shut down while waiting for the next tick"
  | .waitTimeout waited => "clock did not advance within " ++ waited.text
  | .lockPoisoned => "generator lock poisoned"

/-- A promise that a caller or a buffer broke. -/
inductive Panic where
  | lengthOverflow (head tail : Nat)
  | advancePastEnd (count remaining : Nat)
  /-- A buffer delivered no byte where it promised one. -/
  | emptyChunk
  /-- More bytes were asked for than remain. -/
  | shortRead (count remaining : Nat)
  /-- A position past the end of a buffer. -/
  | positionPastEnd (position length : Nat)
  /-- An array of more bytes than `arrayMax`. -/
  | arrayTooLarge (bytes : Nat)
  /-- A place in a cycle that has none. -/
  | emptyCycle
  /-- A result that a word cannot hold. -/
  | arithmetic
  deriving DecidableEq, Repr

def Panic.message : Panic → String
  | .lengthOverflow head tail => (Error.lengthOverflow head tail).message
  | .advancePastEnd count remaining =>
    "cannot advance " ++ Decimal.text count ++ " bytes with " ++ Decimal.text remaining
      ++ " remaining"
  | .emptyChunk => "index out of bounds: the len is 0 but the index is 0"
  | .shortRead count remaining =>
    "cannot read " ++ Decimal.text count ++ " bytes with " ++ Decimal.text remaining
      ++ " remaining"
  | .positionPastEnd position length =>
    "position " ++ Decimal.text position ++ " past the end of " ++ Decimal.text length
      ++ " bytes"
  | .arrayTooLarge _ => "capacity overflow"
  | .emptyCycle => "attempt to calculate the remainder with a divisor of zero"
  | .arithmetic => "arithmetic overflow"

/-- What ends an operation without a value. -/
inductive Failure where
  | error (cause : Error)
  | panic (cause : Panic)
  deriving DecidableEq, Repr

def Failure.message : Failure → String
  | .error e => e.message
  | .panic p => p.message

/-- A value, or what ended the operation. -/
abbrev Outcome (α : Type) := Except Failure α

end StoreClient

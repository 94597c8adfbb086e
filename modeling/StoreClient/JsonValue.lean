import StoreClient.Decimal
import StoreClient.Text.Quoted

/-! # JSON values

A `JsonValue` is a JSON document in memory; integers are kept apart from other numbers, which are
only carried along as text.  `compact` writes a value without blanks. -/

namespace StoreClient

inductive JsonValue where
  | null
  | bool (b : Bool)
  | integer (z : Int)
  /-- A number that is no integer, as it was written. -/
  | real (digits : String)
  | text (s : String)
  | list (items : List JsonValue)
  | object (fields : List (String × JsonValue))
  deriving Inhabited

namespace JsonValue

/-- A character between the quotes of a string. -/
def escapeChar (c : Char) : List Char :=
  if c = '"' then ['\\', '"']
  else if c = '\\' then ['\\', '\\']
  else if c = '\n' then ['\\', 'n']
  else if c = '\r' then ['\\', 'r']
  else if c = '\t' then ['\\', 't']
  else if c.toNat = 8 then ['\\', 'b']
  else if c.toNat = 12 then ['\\', 'f']
  else if c.toNat < 32 then
    ['\\', 'u', '0', '0', Text.Quoted.hexDigit (c.toNat / 16), Text.Quoted.hexDigit (c.toNat % 16)]
  else [c]

def quote (s : String) : List Char := '"' :: s.toList.flatMap escapeChar ++ ['"']

mutual

/-- The value without blanks. -/
def compact : JsonValue → List Char
  | null => "null".toList
  | bool b => (if b then "true" else "false").toList
  | integer z => Decimal.ofInt z
  | real digits => digits.toList
  | text s => quote s
  | list [] => ['[', ']']
  | list (x :: xs) => '[' :: compact x ++ compactItems xs
  | object [] => ['\x7b', '\x7d']
  | object ((k, v) :: fs) => '\x7b' :: quote k ++ ':' :: compact v ++ compactFields fs

/-- The items after the first, and the closing bracket. -/
def compactItems : List JsonValue → List Char
  | [] => [']']
  | x :: xs => ',' :: compact x ++ compactItems xs

/-- The fields after the first, and the closing brace. -/
def compactFields : List (String × JsonValue) → List Char
  | [] => ['\x7d']
  | (k, v) :: fs => ',' :: quote k ++ ':' :: compact v ++ compactFields fs

end

/-- A non-negative integer up to `max`. -/
def natUpTo? (max : Nat) : JsonValue → Option Nat
  | integer (.ofNat n) => if n ≤ max then some n else none
  | _ => none

theorem natUpTo?_integer {max n : Nat} (h : n ≤ max) : natUpTo? max (integer n) = some n := by
  show (if n ≤ max then some n else none) = some n
  rw [if_pos h]

end JsonValue
end StoreClient

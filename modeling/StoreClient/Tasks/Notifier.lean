import StoreClient.ByteSeq.Compare
import StoreClient.Error

/-! # Notifications

A `Notifier` keeps subscriptions in the order in which they came and hands out a number to each,
which it counts in a word.  A pattern that ends in `*` matches the keys that start with the rest of
it, any other pattern one key.  Publishing first collects the listeners that are registered at that
moment. -/

namespace StoreClient.Tasks

/-- The byte that makes a pattern match by its beginning. -/
def wildcard : UInt8 := 42

/-- Whether a key matches a pattern; a buffer that breaks its promise can end the question. -/
def matchesKey (pattern key : ByteSeq) : Outcome Bool :=
  if pattern.isEmpty then .ok (pattern.contentEq key)
  else match pattern.get (pattern.length - 1) with
    | .error e => .error e
    | .ok last =>
      if last ≠ wildcard then .ok (pattern.contentEq key)
      else
        let stem := pattern.length - 1
        match key.subSeq 0 stem, pattern.subSeq 0 stem with
        | .ok head, .ok begins => .ok (begins.contentEq head)
        | _, _ => .ok false

/-- A listener and the keys that it wants to hear of. -/
structure Subscription (α : Type) where
  id : Nat
  pattern : ByteSeq
  listener : α

/-- The subscriptions of a channel. -/
structure Notifier (α : Type) where
  nextId : UInt64 := 0
  subscriptions : List (Subscription α) := []

namespace Notifier

variable {α : Type}

/-- Adds a listener under the next number; after the largest word the numbers begin anew. -/
def subscribe (n : Notifier α) (pattern : ByteSeq) (listener : α) : Nat × Notifier α :=
  let id := n.nextId.toNat
  (id, ⟨n.nextId + 1, n.subscriptions ++ [⟨id, pattern, listener⟩]⟩)

/-- Removes a subscription; the answer says whether there was one. -/
def unsubscribe (n : Notifier α) (id : Nat) : Bool × Notifier α :=
  (n.subscriptions.any (·.id == id),
    ⟨n.nextId, n.subscriptions.filter (·.id != id)⟩)

/-- The listeners of some subscriptions whose pattern matches a key, in order. -/
def select (key : ByteSeq) : List (Subscription α) → Outcome (List α)
  | [] => .ok []
  | s :: rest =>
    match matchesKey s.pattern key with
    | .error e => .error e
    | .ok true => (select key rest).map (s.listener :: ·)
    | .ok false => select key rest

/-- The listeners that a changed key concerns. -/
def interested (n : Notifier α) (key : ByteSeq) : Outcome (List α) := select key n.subscriptions

/-- All listeners. -/
def listeners (n : Notifier α) : List α := n.subscriptions.map (·.listener)

def count (n : Notifier α) : Nat := n.subscriptions.length

end Notifier

/-- The name of a subscription. -/
def subscriptionName (id : Nat) : String := "sub-" ++ Decimal.text id

end StoreClient.Tasks

import StoreClient.ByteSeq.Basic
import StoreClient.Tasks.Cell

/-! # Actions and callbacks

What a caller can do with tasks, watchers and channels, and what callbacks do in their turn: a
callback is a list of actions.  Patterns and keys come as their building left them; one that could
not be built makes its action panic.  A work item says what the queue and the consumer do with
it. -/

namespace StoreClient.Tasks

/-- What a panic carries. -/
inductive Payload where
  | text (message : String)
  /-- What ended an operation on a pattern or a key. -/
  | failed (cause : Failure)
  /-- Anything but text. -/
  | other
  deriving DecidableEq, Repr

def Payload.message : Payload → String
  | text m => m
  | failed f => f.message
  | other => "non-string panic payload"

/-- How the consumer of an item ends. -/
inductive Ending where
  | success
  | failure (text : String)
  | panic (payload : Payload)
  /-- The queue panics while it hands the item out. -/
  | breaksQueue
  deriving DecidableEq, Repr

/-- Who runs the drains that a watcher submits. -/
inductive Executor where
  /-- The signalling call itself. -/
  | inline
  /-- A later call. -/
  | deferred
  /-- Threads of their own, which are done before the caller looks. -/
  | background
  deriving DecidableEq, Repr

mutual

inductive Action where
  | push (task : Nat) (item : Item)
  /-- Polls the queue of a task without a drain. -/
  | poll (task : Nat)
  | queue (task : Nat)
  | signalReady (task : Nat)
  | signalWaiting (task : Nat)
  | run (task : Nat)
  | state (task : Nat)
  | task (task : Nat)
  /-- Starts a watcher of a task on a channel. -/
  | start (task channel : Nat) (executor : Executor) (pattern : Outcome ByteSeq)
  | stop (watcher : Nat)
  | drop (watcher : Nat)
  | watcher (watcher : Nat)
  | publish (channel : Nat) (key : Outcome ByteSeq)
  /-- Tells all listeners of a channel that they are subscribed again. -/
  | resubscribe (channel : Nat)
  | subscriptions (channel : Nat)
  /-- Subscribes a recorder; every notification runs the next callback of its kind. -/
  | subscribe (channel : Nat) (pattern : Outcome ByteSeq)
    (onKey onSubscribed : List (List Action))
  | unsubscribe (recorder : Nat)
  /-- Runs the oldest deferred jobs. -/
  | jobs (max : Nat)
  /-- Runs one deferred job. -/
  | job (place : Nat)
  | pendingJobs

inductive Item where
  | mk (id : String) (onPoll onAccept : List Action) (ending : Ending)

end

namespace Item

def id : Item → String
  | mk id _ _ _ => id

/-- What the queue does before it hands the item out. -/
def onPoll : Item → List Action
  | mk _ onPoll _ _ => onPoll

/-- What the consumer does first. -/
def onAccept : Item → List Action
  | mk _ _ onAccept _ => onAccept

/-- How the consumer ends after that. -/
def ending : Item → Ending
  | mk _ _ _ ending => ending

theorem sizeOf_callbacks_lt (i : Item) :
    sizeOf i.onPoll + sizeOf i.onAccept < sizeOf i := by
  cases i
  simp only [onPoll, onAccept, mk.sizeOf_spec]
  omega

end Item

/-- What an action returns. -/
inductive Answer where
  | nothing
  | flag (b : Bool)
  | count (n : Nat)
  | item (id : String)
  | queue (length : Nat)
  | state (s : TaskState)
  | task (s : TaskState) (failures : Nat)
  | watcher (active : Bool) (pattern : ByteSeq) (s : TaskState) (failures : Nat)
  /-- A recorder's place and the number of its subscription. -/
  | recorder (place subscription : Nat)
  | subscriptions (n : Nat)

/-- How a call ends. -/
inductive Result where
  | answer (a : Answer)
  | panic (p : Payload)

/-- What callbacks leave behind. -/
inductive Note where
  /-- A consumer was handed an item. -/
  | accepted (task : Nat) (id : String)
  /-- An action of a callback returned. -/
  | did (action : Action) (answer : Answer)
  /-- A failure hook saw an error. -/
  | hooked (task : Nat) (error : String)
  | keyChanged (recorder : Nat) (key : Bytes)
  | subscribed (recorder : Nat)

end StoreClient.Tasks

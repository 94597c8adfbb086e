/-! # The shared words of a task

A task is driven through two shared words: its state and the flag that a signal came while it ran.
A signal and a drain are programs over these words; `Signal.step` and `Drain.step` take one atomic
step of them, so that the steps of several threads can be put in any order. -/

namespace StoreClient.Tasks

/-- Where a task stands. -/
inductive TaskState where
  /-- Idle. -/
  | waiting
  /-- A drain is owed and has not begun. -/
  | ready
  /-- A drain is under way. -/
  | running
  deriving DecidableEq, Repr

namespace TaskState

def name : TaskState → String
  | waiting => "waiting"
  | ready => "ready"
  | running => "running"

/-- The name with a capital. -/
def label : TaskState → String
  | waiting => "Waiting"
  | ready => "Ready"
  | running => "Running"

end TaskState

/-- The words that all callers of a task share. -/
structure Cell where
  state : TaskState := .waiting
  /-- A signal came while a drain was under way. -/
  rearmed : Bool := false
  deriving DecidableEq, Repr

namespace Cell

/-- Compare and exchange: moves the state only from the expected one. -/
def exchange? (c : Cell) (expected next : TaskState) : Option Cell :=
  if c.state = expected then some { c with state := next } else none

def store (c : Cell) (state : TaskState) : Cell := { c with state := state }

def rearm (c : Cell) : Cell := { c with rearmed := true }

def clear (c : Cell) : Cell := { c with rearmed := false }

end Cell

/-- One step of a call: it goes on at a point, or returns. -/
inductive Move (π ρ : Type) where
  | goTo (point : π)
  | done (result : ρ)
  deriving DecidableEq, Repr

/-- The points of a ready signal. -/
inductive Signal where
  /-- Tries to move an idle task to ready. -/
  | attempt
  /-- Tells the drain that it has to poll again. -/
  | raise
  /-- Tries once more: the drain may have ended before it saw the flag. -/
  | retry
  deriving DecidableEq, Repr

/-- A signal answers whether the caller owes the task a drain. -/
def Signal.step : Signal → Cell → Cell × Move Signal Bool
  | .attempt, c =>
    match c.exchange? .waiting .ready with
    | some c' => (c', .done true)
    | none => if c.state = .running then (c, .goTo .raise) else (c, .done false)
  | .raise, c => (c.rearm, .goTo .retry)
  | .retry, c =>
    match c.exchange? .waiting .ready with
    | some c' => (c', .done true)
    | none => (c, .done false)

/-- The points of a drain. -/
inductive Drain where
  /-- Tries to move a ready task to running. -/
  | claim
  /-- Forgets the signals that the next poll will serve. -/
  | clear
  /-- Polls the queue and serves what it answers. -/
  | poll
  /-- The queue is empty: tries to move the task back to waiting. -/
  | release
  /-- Asks whether a signal came meanwhile. -/
  | swap
  /-- One did: tries to take the task again. -/
  | reclaim
  /-- A panic unwinds the drain. -/
  | abandon
  deriving DecidableEq, Repr

namespace Drain

/-- The drain has taken the task and not yet tried to give it back. -/
def active : Drain → Bool
  | clear | poll | release | abandon => true
  | claim | swap | reclaim => false

/-- At `poll`, the step of a queue that is found empty. -/
def step : Drain → Cell → Cell × Move Drain Unit
  | claim, c =>
    match c.exchange? .ready .running with
    | some c' => (c', .goTo clear)
    | none => (c, .done ())
  | clear, c => (c.clear, .goTo poll)
  | poll, c => (c, .goTo release)
  | release, c =>
    match c.exchange? .running .waiting with
    | some c' => (c', .goTo swap)
    | none => (c, .done ())
  | swap, c => (c.clear, if c.rearmed then .goTo reclaim else .done ())
  | reclaim, c =>
    match c.exchange? .waiting .running with
    | some c' => (c', .goTo clear)
    | none => (c, .done ())
  | abandon, c => ((c.exchange? .running .waiting).getD c, .done ())

end Drain
end StoreClient.Tasks

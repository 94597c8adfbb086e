import StoreClient.ByteSeq.Text
import StoreClient.Tasks.Action
import StoreClient.Tasks.Notifier

/-! # Tasks, watchers and channels

A `World` holds everything that actions can reach: tasks with their queues, channels with their
subscriptions, watchers, recorders, and the jobs that were submitted and have not begun.  Places
are numbers; a place that holds nothing reads as a task without work and is never written. -/

namespace StoreClient.Tasks

/-- What a task does with every failure of its consumer. -/
structure Hook where
  /-- The error text at which the hook panics. -/
  panicsOn : Option String := none
  /-- The callbacks of the next calls. -/
  scripts : List (List Action) := []

structure Task where
  cell : Cell := {}
  failures : UInt64 := 0
  queue : List Item := []
  /-- The callbacks of the next polls that find the queue empty. -/
  onEmpty : List (List Action) := []
  hook : Option Hook := none

/-- Who gets a notification. -/
inductive Listener where
  | watcher (place : Nat)
  | recorder (place : Nat)
  deriving DecidableEq, Repr

/-- A watcher in its owner's hands. -/
inductive Handle where
  /-- The start has not returned. -/
  | starting
  /-- Started; its subscription, until it is stopped. -/
  | held (subscription : Option Nat)
  | dropped
  deriving DecidableEq, Repr

/-- Submits a drain of its task whenever a watched key changes. -/
structure Watcher where
  task : Nat
  channel : Nat
  executor : Executor
  pattern : ByteSeq
  active : Bool := true
  handle : Handle := .starting

/-- Notes its notifications and runs a callback for each. -/
structure Recorder where
  channel : Nat
  onKey : List (List Action)
  onSubscribed : List (List Action)
  /-- The number of its subscription, once the subscribing call has returned. -/
  subscription : Option Nat := none

structure World where
  tasks : List Task := []
  channels : List (Notifier Listener) := []
  watchers : List Watcher := []
  recorders : List Recorder := []
  /-- The tasks of deferred jobs, oldest first. -/
  deferred : List Nat := []
  /-- The tasks of background jobs that have not begun. -/
  spawned : List Nat := []
  /-- The notes so far, last first. -/
  notes : List Note := []

namespace World

def note (w : World) (n : Note) : World := { w with notes := n :: w.notes }

/-! ### Tasks -/

def task (w : World) (t : Nat) : Task := w.tasks[t]?.getD {}

def modifyTask (w : World) (t : Nat) (f : Task → Task) : World :=
  { w with tasks := w.tasks.modify t f }

def setCell (w : World) (t : Nat) (c : Cell) : World := w.modifyTask t ({ · with cell := c })

def push (w : World) (t : Nat) (item : Item) : World :=
  w.modifyTask t fun task => { task with queue := task.queue ++ [item] }

/-- The oldest item of a queue, which leaves it. -/
def pop? (w : World) (t : Nat) : Option (Item × World) :=
  match (w.task t).queue with
  | [] => none
  | item :: rest => some (item, w.modifyTask t ({ · with queue := rest }))

/-- The callback of a poll that found nothing, if there is one left. -/
def takeOnEmpty (w : World) (t : Nat) : Option (List Action × World) :=
  match (w.task t).onEmpty with
  | [] => none
  | script :: rest => some (script, w.modifyTask t ({ · with onEmpty := rest }))

/-- The callback of a failure hook, if there is one left. -/
def takeHookScript (w : World) (t : Nat) : Option (List Action × World) :=
  match (w.task t).hook with
  | some ⟨panicsOn, script :: rest⟩ =>
    some (script, w.modifyTask t ({ · with hook := some ⟨panicsOn, rest⟩ }))
  | _ => none

def countFailure (w : World) (t : Nat) : World :=
  w.modifyTask t fun task => { task with failures := task.failures + 1 }

def signalWaiting (w : World) (t : Nat) : World := w.setCell t ((w.task t).cell.store .waiting)

/-! ### Channels -/

def channel (w : World) (c : Nat) : Notifier Listener := w.channels[c]?.getD {}

def setChannel (w : World) (c : Nat) (n : Notifier Listener) : World :=
  { w with channels := w.channels.set c n }

/-- Subscribes a listener; the number of the subscription. -/
def subscribe (w : World) (c : Nat) (pattern : ByteSeq) (l : Listener) : Nat × World :=
  let (id, n) := (w.channel c).subscribe pattern l
  (id, w.setChannel c n)

def unsubscribe (w : World) (c id : Nat) : Bool × World :=
  let (found, n) := (w.channel c).unsubscribe id
  (found, w.setChannel c n)

/-! ### Watchers -/

def addWatcher (w : World) (v : Watcher) : World := { w with watchers := w.watchers ++ [v] }

def modifyWatcher (w : World) (i : Nat) (f : Watcher → Watcher) : World :=
  { w with watchers := w.watchers.modify i f }

/-- The watcher at a place, if its owner has it. -/
def held? (w : World) (i : Nat) : Option (Watcher × Option Nat) :=
  match w.watchers[i]? with
  | some v => match v.handle with
    | .held subscription => some (v, subscription)
    | _ => none
  | none => none

/-- Stops a watcher: it hears of nothing more, and its task is idle. -/
def stop (w : World) (i : Nat) : World :=
  match w.held? i with
  | none => w
  | some (v, subscription) =>
    let w := w.modifyWatcher i ({ · with active := false, handle := .held none })
    match subscription with
    | none => w
    | some id => (w.unsubscribe v.channel id).2.signalWaiting v.task

/-- Hands a drain of a watcher's task to its executor; an inline executor leaves it to the
caller. -/
def submit (w : World) (executor : Executor) (t : Nat) : World :=
  match executor with
  | .inline => w
  | .deferred => { w with deferred := w.deferred ++ [t] }
  | .background => { w with spawned := w.spawned ++ [t] }

/-! ### Recorders -/

def addRecorder (w : World) (r : Recorder) : World := { w with recorders := w.recorders ++ [r] }

def modifyRecorder (w : World) (i : Nat) (f : Recorder → Recorder) : World :=
  { w with recorders := w.recorders.modify i f }

/-- The next callback of a changed key. -/
def takeOnKey (w : World) (i : Nat) : Option (List Action × World) :=
  match w.recorders[i]? with
  | some ⟨channel, script :: rest, onSubscribed, subscription⟩ =>
    some (script, w.modifyRecorder i fun _ => ⟨channel, rest, onSubscribed, subscription⟩)
  | _ => none

/-- The next callback of a subscription. -/
def takeOnSubscribed (w : World) (i : Nat) : Option (List Action × World) :=
  match w.recorders[i]? with
  | some ⟨channel, onKey, script :: rest, subscription⟩ =>
    some (script, w.modifyRecorder i fun _ => ⟨channel, onKey, rest, subscription⟩)
  | _ => none

end World

/-! ### Text -/

/-- The text of a task. -/
def taskText (s : TaskState) (failures : Nat) : String :=
  "PollingTask \x7b state: " ++ s.label ++ ", failures: " ++ Decimal.text failures ++ ", .. \x7d"

/-- The text of a watcher. -/
def watcherText (pattern : ByteSeq) (s : TaskState) (failures : Nat) : String :=
  "KeyspaceWatcher \x7b pattern: " ++ pattern.debug ++ ", task: " ++ taskText s failures
    ++ ", .. \x7d"

/-- The text of a channel. -/
def channelText (subscriptions : Nat) : String :=
  "LocalNotifier \x7b subscriptions: " ++ Decimal.text subscriptions ++ " \x7d"

end StoreClient.Tasks

import StoreClient.Tasks.World

/-! # Running actions

A `Machine` runs one action with everything that it sets off.  Its stack holds the calls under way,
innermost first, so that a drain, a signal and a delivery can be looked at between any two steps,
and a panic unwinds them one by one. -/

namespace StoreClient.Tasks

/-- What is delivered to listeners. -/
inductive Event where
  | keyChanged (key : ByteSeq)
  | subscribed

/-- A call under way. -/
inductive Frame where
  /-- The actions of a callback that are left. -/
  | script (rest : List Action)
  /-- An action of a callback; its answer will be noted. -/
  | acting (action : Action)
  /-- A ready signal. -/
  | signal (task : Nat) (point : Signal)
  /-- A ready signal of a watcher, which submits the drain that it is then owed. -/
  | firing (watcher : Nat) (point : Signal)
  /-- A drain, and a word that counts the items that it has taken. -/
  | drain (task : Nat) (point : Drain) (taken : UInt64)
  /-- A queue that hands an item to a drain, while its callback runs. -/
  | handing (task : Nat) (item : Item)
  /-- A consumer, while its callback runs. -/
  | accepting (task : Nat) (item : Item)
  /-- Listeners that an event has still to reach, and how many it concerns. -/
  | delivering (event : Event) (rest : List Listener) (count : Nat)
  | starting (watcher subscription : Nat)
  | subscribing (recorder subscription : Nat)
  /-- Deferred jobs that are run: how many may follow, and how many were begun. -/
  | working (left done : Nat)
  /-- A call that ends so once the callback inside it has returned. -/
  | ending (result : Result)
  /-- Background jobs, after the caller's action has ended with a result. -/
  | settling (result : Option Result)

/-- Whether the innermost call goes on, or has ended. -/
inductive Mode where
  | running
  | ended (result : Result)

structure Machine where
  world : World
  stack : List Frame
  mode : Mode

/-- How a poll ends that takes an item. -/
def Item.polled (item : Item) : Result :=
  match item.ending with
  | .breaksQueue => .panic (.text "queue broke")
  | _ => .answer (.item item.id)

namespace World

/-- Runs frames on top of the stack. -/
def enter (w : World) (frames stack : List Frame) : Machine := ⟨w, frames ++ stack, .running⟩

/-- The innermost call returns. -/
def answer (w : World) (a : Answer) (stack : List Frame) : Machine := ⟨w, stack, .ended (.answer a)⟩

/-- The innermost call panics. -/
def raise (w : World) (p : Payload) (stack : List Frame) : Machine := ⟨w, stack, .ended (.panic p)⟩

/-- Runs the callback that was taken, if there was one. -/
def runNext (w : World) : Option (List Action × World) → World × List Frame
  | some (script, w) => (w, [.script script])
  | none => (w, [])

/-- Tells a listener of an event: what runs for it.  A recorder copies the key. -/
def notify (w : World) (e : Event) : Listener → World × List Frame
  | .watcher i =>
    match w.watchers[i]? with
    | some v => (w, if v.active then [.firing i .attempt] else [])
    | none => (w, [])
  | .recorder i =>
    match e with
    | .keyChanged key =>
      match key.gather with
      | .error f => (w, [.ending (.panic (.failed f))])
      | .ok bytes =>
        let w := w.note (.keyChanged i bytes)
        w.runNext (w.takeOnKey i)
    | .subscribed =>
      let w := w.note (.subscribed i)
      w.runNext (w.takeOnSubscribed i)

/-- Begins an action. -/
def begin (w : World) (a : Action) (k : List Frame) : Machine :=
  match a with
  | .push t item => (w.push t item).answer .nothing k
  | .poll t =>
    match w.pop? t with
    | some (item, w) => w.enter [.script item.onPoll, .ending item.polled] k
    | none => match w.takeOnEmpty t with
      | some (script, w) => w.enter [.script script, .ending (.answer .nothing)] k
      | none => w.answer .nothing k
  | .queue t => w.answer (.queue (w.task t).queue.length) k
  | .signalReady t => w.enter [.signal t .attempt] k
  | .signalWaiting t => (w.signalWaiting t).answer .nothing k
  | .run t => w.enter [.drain t .claim 0] k
  | .state t => w.answer (.state (w.task t).cell.state) k
  | .task t => w.answer (.task (w.task t).cell.state (w.task t).failures.toNat) k
  | .start t c executor (.error f) =>
    (w.addWatcher ⟨t, c, executor, .empty, false, .dropped⟩).raise (.failed f) k
  | .start t c executor (.ok pattern) =>
    let i := w.watchers.length
    let w := w.addWatcher ⟨t, c, executor, pattern, true, .starting⟩
    let (id, w) := w.subscribe c pattern (.watcher i)
    let (w, frames) := w.notify .subscribed (.watcher i)
    w.enter (frames ++ [.starting i id]) k
  | .stop i =>
    match w.held? i with
    | some _ => (w.stop i).answer (.flag false) k
    | none => w.answer .nothing k
  | .drop i =>
    match w.held? i with
    | some _ =>
      ((w.stop i).modifyWatcher i ({ · with handle := .dropped })).answer (.flag true) k
    | none => w.answer (.flag false) k
  | .watcher i =>
    match w.held? i with
    | some (v, _) =>
      let t := w.task v.task
      w.answer (.watcher v.active v.pattern t.cell.state t.failures.toNat) k
    | none => w.answer .nothing k
  | .publish _ (.error f) => w.raise (.failed f) k
  | .publish c (.ok key) =>
    match (w.channel c).interested key with
    | .ok listeners => w.enter [.delivering (.keyChanged key) listeners listeners.length] k
    | .error f => w.raise (.failed f) k
  | .resubscribe c =>
    let listeners := (w.channel c).listeners
    w.enter [.delivering .subscribed listeners listeners.length] k
  | .subscriptions c => w.answer (.subscriptions (w.channel c).count) k
  | .subscribe c (.error f) onKey onSubscribed =>
    (w.addRecorder ⟨c, onKey, onSubscribed, none⟩).raise (.failed f) k
  | .subscribe c (.ok pattern) onKey onSubscribed =>
    let i := w.recorders.length
    let w := w.addRecorder ⟨c, onKey, onSubscribed, none⟩
    let (id, w) := w.subscribe c pattern (.recorder i)
    let (w, frames) := w.notify .subscribed (.recorder i)
    w.enter (frames ++ [.subscribing i id]) k
  | .unsubscribe i =>
    match w.recorders[i]? with
    | some ⟨c, _, _, some id⟩ =>
      let (found, w) := w.unsubscribe c id
      w.answer (.flag found) k
    | _ => w.answer .nothing k
  | .jobs max => w.enter [.working max 0] k
  | .job place =>
    match w.deferred[place]? with
    | some t =>
      { w with deferred := w.deferred.eraseIdx place }.enter
        [.drain t .claim 0, .ending (.answer (.count 1))] k
    | none => w.answer (.count 0) k
  | .pendingJobs => w.answer (.count w.deferred.length) k

/-- A consumer failed: the failure is counted and shown to the hook. -/
def fail (w : World) (t : Nat) (error : String) (k : List Frame) : Machine :=
  let w := w.countFailure t
  match (w.task t).hook with
  | none => w.answer .nothing k
  | some hook =>
    let w := w.note (.hooked t error)
    let result : Result :=
      if hook.panicsOn = some error then .panic (.text "hook broke") else .answer .nothing
    match w.takeHookScript t with
    | some (script, w) => w.enter [.script script, .ending result] k
    | none => ⟨w, k, .ended result⟩

/-- What a caught panic is reported as. -/
def caught (p : Payload) : String := "consumer panicked: " ++ p.message

/-- A drain takes a step that is no poll. -/
def advanceDrain (w : World) (k : List Frame) (t : Nat) (point : Drain) (taken : UInt64) :
    Machine :=
  let (c, move) := point.step (w.task t).cell
  match move with
  | .goTo point => (w.setCell t c).enter [.drain t point taken] k
  | .done () => (w.setCell t c).answer (.count taken.toNat) k

/-- The innermost call takes a step. -/
def advance (w : World) (k : List Frame) : Frame → Machine
  | .script [] => w.answer .nothing k
  | .script (a :: rest) => w.begin a (.acting a :: .script rest :: k)
  | .acting _ => w.answer .nothing k
  | .signal t point =>
    let (c, move) := point.step (w.task t).cell
    match move with
    | .goTo point => (w.setCell t c).enter [.signal t point] k
    | .done owed => (w.setCell t c).answer (.flag owed) k
  | .firing i point =>
    match w.watchers[i]? with
    | none => w.answer .nothing k
    | some v =>
      let (c, move) := point.step (w.task v.task).cell
      let w := w.setCell v.task c
      match move with
      | .goTo point => w.enter [.firing i point] k
      | .done false => w.answer .nothing k
      | .done true => match v.executor with
        | .inline => w.enter [.drain v.task .claim 0] k
        | executor => (w.submit executor v.task).answer .nothing k
  | .drain t .poll taken =>
    match w.pop? t with
    | some (item, w) =>
      w.enter [.script item.onPoll, .handing t item, .drain t .poll (taken + 1)] k
    | none => match w.takeOnEmpty t with
      | some (script, w) => w.enter [.script script, .drain t .release taken] k
      | none => w.enter [.drain t .release taken] k
  | .drain t point taken => w.advanceDrain k t point taken
  | .handing t item =>
    match item.polled with
    | .panic p => w.raise p k
    | .answer _ =>
      (w.note (.accepted t item.id)).enter [.script item.onAccept, .accepting t item] k
  | .accepting t item =>
    match item.ending with
    | .failure text => w.fail t text k
    | .panic p => w.fail t (caught p) k
    | _ => w.answer .nothing k
  | .delivering _ [] count => w.answer (.count count) k
  | .delivering e (l :: rest) count =>
    let (w, frames) := w.notify e l
    w.enter (frames ++ [.delivering e rest count]) k
  | .starting i id =>
    (w.modifyWatcher i ({ · with handle := .held (some id) })).answer (.count i) k
  | .subscribing i id =>
    (w.modifyRecorder i ({ · with subscription := some id })).answer (.recorder i id) k
  | .working 0 done => w.answer (.count done) k
  | .working (left + 1) done =>
    match w.deferred with
    | [] => w.answer (.count done) k
    | t :: rest =>
      { w with deferred := rest }.enter [.drain t .claim 0, .working left (done + 1)] k
  | .ending result => ⟨w, k, .ended result⟩
  | .settling result =>
    match w.spawned with
    | [] => ⟨w, k, .ended (result.getD (.answer .nothing))⟩
    | t :: rest => { w with spawned := rest }.enter [.drain t .claim 0, .settling result] k

theorem advance_drain {point : Drain} (h : point ≠ .poll) (w : World) (k : List Frame) (t : Nat)
    (taken : UInt64) : w.advance k (.drain t point taken) = w.advanceDrain k t point taken := by
  cases point with
  | poll => exact absurd rfl h
  | claim | clear | release | swap | reclaim | abandon => rfl

/-- The call inside the innermost one has ended. -/
def resume (w : World) (k : List Frame) (r : Result) (f : Frame) : Machine :=
  match f, r with
  | .settling none, r => w.enter [.settling (some r)] k
  | .settling result, _ => w.enter [.settling result] k
  | .acting a, .answer answer => (w.note (.did a answer)).enter [] k
  | f, .answer _ => w.enter [f] k
  | .drain t point _, .panic p =>
    (if point.active then w.setCell t (Drain.abandon.step (w.task t).cell).1 else w).raise p k
  | .accepting t _, .panic p => w.fail t (caught p) k
  | _, .panic p => w.raise p k

end World

namespace Machine

/-- One step of the innermost call. -/
def step (m : Machine) : Machine :=
  match m.stack, m.mode with
  | [], _ => m
  | f :: k, .running => m.world.advance k f
  | f :: k, .ended r => m.world.resume k r f

end Machine
end StoreClient.Tasks

import StoreClient.Ids.Wait

/-! # A generator on a scripted clock

An `IdBench` is a generator with everything that it reads: a clock that plays a script, a worker id
that may be reassigned, and a cancellation that may be requested at any reading.  Each poll reads
the worker id and then the clock; the last entry of a script repeats. -/

namespace StoreClient

/-- One reading of the clock, and what happens at that moment. -/
structure ClockEntry where
  now : UInt64
  /-- The worker id is reassigned. -/
  worker : Option UInt64 := none
  /-- Waiting is cancelled. -/
  shutdown : Bool := false
  deriving DecidableEq, Repr

/-- Where the worker id comes from. -/
inductive WorkerSource where
  | fixed (id : UInt64)
  /-- A value that others may reassign. -/
  | register (id : UInt64)
  deriving DecidableEq, Repr

namespace WorkerSource

def read : WorkerSource → UInt64
  | fixed id => id
  | register id => id

def assign (s : WorkerSource) (id : UInt64) : WorkerSource :=
  match s with
  | fixed old => fixed old
  | register _ => register id

end WorkerSource

structure IdBench where
  generator : IdGenerator
  worker : WorkerSource
  script : List ClockEntry
  /-- How often the clock was read. -/
  reads : Nat := 0
  cancelled : Bool := false
  /-- Copies of the generator; all share its state. -/
  handles : Nat := 1
  /-- The copy in use. -/
  current : Nat := 0

namespace IdBench

/-- Reads the clock; an empty script stands at zero. -/
def readClock (b : IdBench) : UInt64 × IdBench :=
  match b.script with
  | [] => (0, { b with reads := b.reads + 1 })
  | e :: rest =>
    (e.now, { b with
      script := if rest.isEmpty then [e] else rest
      reads := b.reads + 1
      worker := (e.worker.map b.worker.assign).getD b.worker
      cancelled := b.cancelled || e.shutdown })

/-- Reads the worker id and the clock, and polls. -/
def poll (b : IdBench) : Outcome Poll × IdBench :=
  let worker := b.worker.read
  let (now, b) := b.readClock
  let (answer, generator) := b.generator.poll ⟨now, worker⟩
  (answer, { b with generator := generator })

/-- The answers of a run of polls: how many ids, the first and the last, and the answer that ended
the run. -/
structure Batch where
  count : Nat := 0
  first : Option SnowflakeId := none
  last : Option SnowflakeId := none
  ending : Option (Outcome Poll) := none

/-- Polls until an answer is no id, at most `max` times.  A panic ends the run without a batch. -/
def pollMany : (max : Nat) → IdBench → Batch → Outcome Batch × IdBench
  | 0, b, batch => (.ok batch, b)
  | max + 1, b, batch =>
    match b.poll with
    | (.ok (.ready id), b) =>
      pollMany max b ⟨batch.count + 1, some (batch.first.getD id), some id, none⟩
    | (.error (.panic p), b) => (.error (.panic p), b)
    | (answer, b) => (.ok { batch with ending := some answer }, b)

/-- Waits for an id, with equal pauses. -/
def next (b : IdBench) (pause : Duration) : Option (Outcome SnowflakeId) × IdBench :=
  let c := b.generator.settings
  settle c poll (·.cancelled) (evenly pause) (c.rounds pause) 0 b

/-- A pause of a sleeping caller. -/
def sleepPause : Duration := .ofMillis 1

/-- A pause of a caller that only lets others run. -/
def yieldPause : Duration := ⟨1000⟩

def assignWorker (b : IdBench) (id : UInt64) : IdBench := { b with worker := b.worker.assign id }

def shutdown (b : IdBench) : IdBench := { b with cancelled := true }

/-- Copies the generator, if it can be shared; the place of the copy. -/
def copy (b : IdBench) : Option Nat × IdBench :=
  match b.generator.sharing with
  | .exclusive => (none, b)
  | .locked => (some b.handles, { b with handles := b.handles + 1 })

/-- Turns to a copy, or to the last one; its place. -/
def use (b : IdBench) (i : Nat) : Nat × IdBench :=
  let i := Nat.min i (b.handles - 1)
  (i, { b with current := i })

/-- What many callers see together. -/
structure Tally where
  /-- Ids above all before them. -/
  rising : Nat := 0
  first : Option SnowflakeId := none
  last : Option SnowflakeId := none
  /-- Some id was not above all before it. -/
  repeated : Bool := false
  pending : Nat := 0
  errors : Nat := 0

def Tally.add (t : Tally) : Outcome Poll → Tally
  | .ok (.ready id) =>
    match t.last with
    | some top =>
      if top.raw < id.raw then { t with rising := t.rising + 1, last := some id }
      else { t with repeated := true }
    | none => { t with rising := t.rising + 1, first := some id, last := some id }
  | .ok (.pending _) => { t with pending := t.pending + 1 }
  | .error _ => { t with errors := t.errors + 1 }

/-- Polls a number of times, whatever the answers; a panic alone ends it. -/
def tally : (polls : Nat) → IdBench → Tally → Outcome Tally
  | 0, _, t => .ok t
  | polls + 1, b, t =>
    match b.poll with
    | (.error (.panic p), _) => .error (.panic p)
    | (answer, b) => tally polls b (t.add answer)

/-- The readings of a clock that counts on from an anchor, a millisecond each. -/
def readingsFrom (anchor : UInt64) (elapsed : Nat) : (n : Nat) → Outcome (List ClockEntry)
  | 0 => .ok []
  | n + 1 =>
    match checkedAdd anchor.toNat elapsed with
    | none => .error (.panic .arithmetic)
    | some now => do return ⟨now.toUInt64, none, false⟩ :: (← readingsFrom anchor (elapsed + 1) n)

/-- Waits for `n` ids in turn and says whether they rise; the first failure ends it. -/
def rise : (n : Nat) → IdBench → Option SnowflakeId → Outcome Bool
  | 0, _, _ => .ok true
  | n + 1, b, before =>
    match b.next sleepPause with
    | (some (.ok id), b) =>
      if before.all (·.raw < id.raw) then rise n b (some id) else .ok false
    | (some (.error e), _) => .error e
    | (none, _) => .error (.error .interrupted)

end IdBench
end StoreClient

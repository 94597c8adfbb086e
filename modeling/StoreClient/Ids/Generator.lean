import StoreClient.Ids.Settings

/-! # Issuing ids

A poll reads the worker id and the clock and either issues an id, or says how long to wait, or
fails.  Its ground is the last id issued: `IdSettings.advance` continues the sequence within a
tick, waits at the end of one or after a change of the worker, and refuses a clock that fell too
far behind the latest reading.  Only a poll that issues an id changes what the generator
remembers.  A locked generator, shared between callers, is poisoned by a panic inside its lock. -/

namespace StoreClient

/-- What a caller reads before it polls. -/
structure Reading where
  /-- Milliseconds since the Unix epoch. -/
  now : UInt64
  worker : UInt64
  deriving DecidableEq, Repr

/-- The last id that was issued, and the latest reading at which one was. -/
structure Issued where
  tick : Nat
  worker : Nat
  sequence : Nat
  highWater : Nat
  deriving DecidableEq, Repr

/-- What a poll answers. -/
inductive Poll where
  | ready (id : SnowflakeId)
  /-- No id yet; how long to wait for one. -/
  | pending (wait : Duration)
  deriving DecidableEq, Repr

namespace IdSettings

/-- Issues an id with the given fields. -/
def issue (c : IdSettings) (tick sequence : Nat) (r : Reading) (highWater : Nat) :
    Outcome (Poll × Option Issued) :=
  match c.layout.encode ⟨tick, r.worker.toNat, sequence⟩ with
  | .ok id => .ok (.ready id,
      some ⟨tick, r.worker.toNat, sequence, Nat.max highWater r.now.toNat⟩)
  | .error e => .error (.error e)

/-- Lets the caller wait for a tick. -/
def defer (c : IdSettings) (tick : Nat) (r : Reading) (history : Option Issued) :
    Outcome (Poll × Option Issued) :=
  match c.layout.waitFor tick r.now with
  | .ok d => .ok (.pending d, history)
  | .error e => .error e

/-- The clock is further behind than the settings allow. -/
def tooFarBehind (c : IdSettings) (last : Issued) (now : UInt64) : Bool :=
  saturatingAdd now.toNat c.maxClockDrift.cappedMillis < last.highWater

/-- One poll at a reading whose tick is `tick`: the answer, and what is remembered after it. -/
def advance (c : IdSettings) (history : Option Issued) (r : Reading) (tick : Nat) :
    Outcome (Poll × Option Issued) :=
  match history with
  | none => c.issue tick 0 r 0
  | some last =>
    if c.tooFarBehind last r.now then
      .error (.error (.clockRegression (.ofMillis (last.highWater - r.now.toNat))))
    else if last.tick < tick then c.issue tick 0 r last.highWater
    else if r.worker.toNat ≠ last.worker then c.defer (last.tick + 1) r history
    else if tick < last.tick then c.defer last.tick r history
    else if last.sequence < c.layout.max .sequence then
      c.issue tick (last.sequence + 1) r last.highWater
    else c.defer (last.tick + 1) r history

end IdSettings

/-- Whether a generator belongs to one caller, or is shared behind a lock. -/
inductive Sharing where
  | exclusive
  | locked
  deriving DecidableEq, Repr

structure IdGenerator where
  sharing : Sharing
  settings : IdSettings
  history : Option Issued := none
  /-- A caller panicked while it held the lock. -/
  poisoned : Bool := false
  deriving DecidableEq, Repr

namespace IdGenerator

/-- Polls once. -/
def poll (g : IdGenerator) (r : Reading) : Outcome Poll × IdGenerator :=
  match g.settings.layout.tickOf r.now with
  | .error e => (.error (.error e), g)
  | .ok tick =>
    if g.poisoned then (.error (.error .lockPoisoned), g)
    else match g.settings.advance g.history r tick with
      | .ok (answer, history) => (.ok answer, { g with history := history })
      | .error (.error e) => (.error (.error e), g)
      | .error (.panic p) => (.error (.panic p), { g with poisoned := g.sharing = .locked })

/-- Polls at each reading in turn. -/
def pollAll (g : IdGenerator) : List Reading → List (Outcome Poll) × IdGenerator
  | [] => ([], g)
  | r :: rs =>
    let (answer, g) := g.poll r
    let (answers, g) := g.pollAll rs
    (answer :: answers, g)

end IdGenerator
end StoreClient

import StoreClient.Ids.Bench
import StoreClient.Proofs.Ids.Runs

/-! # Two ways to keep the memory

A program that works on the memory in place leaves behind whatever it has written when it fails
(`InPlace`).  A poll writes last, so it may do so (`IdSettings.run_advanceInPlace`): for a single
caller on a copy that is written back (`IdSettings.pollCell`), or for many on the memory itself,
behind a lock (`IdSettings.pollGuarded`).

Both generators answer the same run alike, up to and including the first overflow.  For a single
caller that poll was as good as not made; behind the lock, which it has poisoned, every later poll
is refused (`IdGenerator.keep_alike`). -/

namespace StoreClient

/-! ### A poll in place -/

/-- The words that a generator keeps between polls.  Until the first id is issued the others mean
nothing. -/
structure Memory where
  issued : Bool := false
  tick : Nat := 0
  worker : Nat := 0
  sequence : Nat := 0
  highWater : Nat := 0
  deriving DecidableEq, Repr

/-- The words for what a generator remembers. -/
def Memory.ofHistory : Option Issued → Memory
  | none => {}
  | some i => ⟨true, i.tick, i.worker, i.sequence, i.highWater⟩

/-- A program that works on the memory in place: what it has written stays, however it ends. -/
abbrev InPlace := EStateM Failure Memory

namespace IdSettings

/-- Lets the caller wait for a tick; nothing is written. -/
def deferInPlace (c : IdSettings) (tick : Nat) (r : Reading) : InPlace Poll := do
  return .pending (← MonadExcept.ofExcept (c.layout.waitFor tick r.now))

/-- Issues the id of the next memory, and writes that one down. -/
def issueInPlace (c : IdSettings) (memory next : Memory) (r : Reading) : InPlace Poll := do
  let id ← MonadExcept.ofExcept <|
    (c.layout.encode ⟨next.tick, next.worker, next.sequence⟩).mapError Failure.error
  set { next with issued := true, highWater := Nat.max memory.highWater r.now.toNat }
  return .ready id

/-- One poll at a reading whose tick is `tick`. -/
def advanceInPlace (c : IdSettings) (r : Reading) (tick : Nat) : InPlace Poll := do
  let memory ← get
  let worker := r.worker.toNat
  if memory.issued ∧
      saturatingAdd r.now.toNat c.maxClockDrift.cappedMillis < memory.highWater then
    throw (.error (.clockRegression (.ofMillis (memory.highWater - r.now.toNat))))
  else if memory.issued ∧ worker ≠ memory.worker ∧ tick ≤ memory.tick then
    c.deferInPlace (memory.tick + 1) r
  else if ¬memory.issued ∨ worker ≠ memory.worker ∨ memory.tick < tick then
    c.issueInPlace memory { memory with tick := tick, worker := worker, sequence := 0 } r
  else if tick = memory.tick then
    if c.layout.max .sequence ≤ memory.sequence then c.deferInPlace (memory.tick + 1) r
    else c.issueInPlace memory { memory with sequence := memory.sequence + 1 } r
  else c.deferInPlace memory.tick r

/-- How a program on the memory ends, for what a poll answers and remembers. -/
def ending (h : Option Issued) : Outcome (Poll × Option Issued) → EStateM.Result Failure Memory Poll
  | .ok (a, h') => .ok a (Memory.ofHistory h')
  | .error e => .error e (Memory.ofHistory h)

variable {c : IdSettings} {h : Option Issued} {r : Reading} {tick : Nat}

theorem run_deferInPlace (t : Nat) :
    (c.deferInPlace t r).run (.ofHistory h) = ending h (c.defer t r h) := by
  unfold deferInPlace defer
  cases c.layout.waitFor t r.now with
  | ok d => rfl
  | error e => rfl

theorem run_issueInPlace (memory : Memory) {next : Memory} (htick : next.tick = tick)
    (hworker : next.worker = r.worker.toNat) :
    (c.issueInPlace memory next r).run (.ofHistory h) =
      ending h (c.issue tick next.sequence r memory.highWater) := by
  subst htick
  unfold issueInPlace issue
  rw [← hworker]
  cases c.layout.encode ⟨next.tick, next.worker, next.sequence⟩ with
  | ok id => rfl
  | error e => rfl

/-- In place, a poll ends as the plain one does, and leaves the words for what that remembers. -/
theorem run_advanceInPlace :
    (c.advanceInPlace r tick).run (.ofHistory h) = ending h (c.advance h r tick) := by
  cases h with
  | none => exact run_issueInPlace (.ofHistory none) rfl rfl
  | some last =>
    have hfar : c.tooFarBehind last r.now = true ↔
        saturatingAdd r.now.toNat c.maxClockDrift.cappedMillis < last.highWater :=
      decide_eq_true_iff
    unfold advanceInPlace advance
    simp only [EStateM.run_bind, EStateM.run_get, Memory.ofHistory, true_and, not_true,
      false_or, hfar]
    by_cases hb : saturatingAdd r.now.toNat c.maxClockDrift.cappedMillis < last.highWater
    · rw [if_pos hb, if_pos hb]
      rfl
    rw [if_neg hb, if_neg hb]
    rcases Nat.lt_or_ge last.tick tick with hlt | hle
    · -- a later tick begins a sequence, whoever the worker is
      rw [if_neg fun h => absurd hlt (Nat.not_lt.mpr h.2), if_pos (.inr hlt), if_pos hlt]
      exact run_issueInPlace (h := some last) (.ofHistory (some last)) rfl rfl
    rw [if_neg (Nat.not_lt.mpr hle)]
    by_cases hw : r.worker.toNat = last.worker
    · rw [if_neg fun h => h.1 hw, if_neg (not_or.mpr ⟨not_not.mpr hw, Nat.not_lt.mpr hle⟩),
        if_neg (not_not.mpr hw)]
      rcases Nat.lt_or_eq_of_le hle with hlt | rfl
      · rw [if_neg (Nat.ne_of_lt hlt), if_pos hlt]
        exact run_deferInPlace (h := some last) _
      rw [if_pos rfl, if_neg (Nat.lt_irrefl _)]
      rcases Nat.lt_or_ge last.sequence (c.layout.max .sequence) with hseq | hseq
      · rw [if_neg (Nat.not_le.mpr hseq), if_pos hseq]
        exact run_issueInPlace (h := some last) (.ofHistory (some last)) rfl hw.symm
      · rw [if_pos hseq, if_neg (Nat.not_lt.mpr hseq)]
        exact run_deferInPlace (h := some last) _
    · rw [if_pos ⟨hw, hle⟩, if_pos hw]
      exact run_deferInPlace (h := some last) _

/-! ### Two ways to keep it -/

/-- A poll of a single caller works on a copy of the memory, which takes its place unless the poll
fails. -/
def pollCell (c : IdSettings) (cell : Memory) (r : Reading) : Outcome Poll × Memory :=
  match c.layout.tickOf r.now with
  | .error e => (.error (.error e), cell)
  | .ok tick =>
    match (c.advanceInPlace r tick).run cell with
    | .ok a copy => (.ok a, copy)
    | .error e _ => (.error e, cell)

end IdSettings

structure Guarded where
  memory : Memory := {}
  /-- A caller panicked while it held the lock. -/
  poisoned : Bool := false
  deriving DecidableEq, Repr

namespace IdSettings

/-- A poll of one of many callers works on the memory itself while it holds the lock. -/
def pollGuarded (c : IdSettings) (guarded : Guarded) (r : Reading) : Outcome Poll × Guarded :=
  match c.layout.tickOf r.now with
  | .error e => (.error (.error e), guarded)
  | .ok tick =>
    if guarded.poisoned then (.error (.error .lockPoisoned), guarded)
    else match (c.advanceInPlace r tick).run guarded.memory with
      | .ok a memory => (.ok a, ⟨memory, false⟩)
      | .error (.error e) memory => (.error (.error e), ⟨memory, false⟩)
      | .error (.panic p) memory => (.error (.panic p), ⟨memory, true⟩)

end IdSettings

/-- The answers of polls at each reading in turn, in a world that every poll may change. -/
def answersIn {σ : Type} (poll : σ → Reading → Outcome Poll × σ) : σ → List Reading →
    List (Outcome Poll)
  | _, [] => []
  | s, r :: rs => (poll s r).1 :: answersIn poll (poll s r).2 rs

namespace IdGenerator

variable {g : IdGenerator} {r : Reading} {rs : List Reading}

/-- The copy that is kept stands for what the generator of a single caller remembers. -/
theorem pollCell_eq (hfree : g.poisoned = false) :
    g.settings.pollCell (.ofHistory g.history) r =
      ((g.poll r).1, .ofHistory (g.poll r).2.history) := by
  unfold IdSettings.pollCell
  cases htick : g.settings.layout.tickOf r.now with
  | error e => rw [poll_of_noTick htick]
  | ok tick =>
    simp only [IdSettings.run_advanceInPlace, poll_of_free htick hfree]
    cases g.settings.advance g.history r tick with
    | ok answer => rfl
    | error failure =>
      cases failure with
      | error e => rfl
      | panic p => rfl

theorem pollGuarded_eq (hsharing : g.sharing = .locked) :
    g.settings.pollGuarded ⟨.ofHistory g.history, g.poisoned⟩ r =
      ((g.poll r).1, ⟨.ofHistory (g.poll r).2.history, (g.poll r).2.poisoned⟩) := by
  unfold IdSettings.pollGuarded
  cases htick : g.settings.layout.tickOf r.now with
  | error e => rw [poll_of_noTick htick]
  | ok tick =>
    cases hlock : g.poisoned with
    | true =>
      rw [poll_of_poisoned htick hlock, hlock]
      rfl
    | false =>
      simp only [IdSettings.run_advanceInPlace, poll_of_free htick hlock, Bool.false_eq_true,
        if_false]
      cases g.settings.advance g.history r tick with
      | ok answer =>
        rw [conclude, hlock]
        rfl
      | error failure =>
        cases failure with
        | error e =>
          rw [conclude, hlock]
          rfl
        | panic p =>
          rw [conclude, decide_eq_true hsharing]
          rfl

theorem answersIn_pollCell (hsharing : g.sharing = .exclusive) (hfree : g.poisoned = false) :
    answersIn g.settings.pollCell (.ofHistory g.history) rs = (g.pollAll rs).1 := by
  induction rs generalizing g with
  | nil => rfl
  | cons r rs ih =>
    have hstep : (g.poll r).2.sharing = .exclusive := (g.sharing_poll r).trans hsharing
    have hnext : (g.poll r).2.poisoned = false := by
      rw [Bool.eq_false_iff, ne_eq, poisoned_poll_iff, hfree, hsharing]
      rintro (h | ⟨h, -⟩)
      · exact nomatch h
      · exact nomatch h
    rw [answersIn, pollCell_eq hfree, pollAll_cons, ← g.settings_poll r]
    exact congrArg _ (ih hstep hnext)

theorem answersIn_pollGuarded (hsharing : g.sharing = .locked) :
    answersIn g.settings.pollGuarded ⟨.ofHistory g.history, g.poisoned⟩ rs = (g.pollAll rs).1 := by
  induction rs generalizing g with
  | nil => rfl
  | cons r rs ih =>
    have hstep : (g.poll r).2.sharing = .locked := (g.sharing_poll r).trans hsharing
    rw [answersIn, pollGuarded_eq hsharing, pollAll_cons, ← g.settings_poll r]
    exact congrArg _ (ih hstep)

/-! ### One run, two generators -/

/-- The same generator, kept the other way. -/
def keptBy (g : IdGenerator) (s : Sharing) : IdGenerator := { g with sharing := s }

/-- The first answer does not depend on the way the memory is kept, and without an overflow the
memory does not either. -/
theorem poll_keptBy (g : IdGenerator) (s : Sharing) (r : Reading) :
    ((g.keptBy s).poll r).1 = (g.poll r).1 ∧
      ((g.poll r).1 ≠ overflow → ((g.keptBy s).poll r).2 = (g.poll r).2.keptBy s) := by
  have hset : (g.keptBy s).settings = g.settings := rfl
  have hpoisoned : (g.keptBy s).poisoned = g.poisoned := rfl
  have hhistory : (g.keptBy s).history = g.history := rfl
  cases htick : g.settings.layout.tickOf r.now with
  | error e =>
    rw [poll_of_noTick htick, poll_of_noTick (hset ▸ htick)]
    exact ⟨rfl, fun _ => rfl⟩
  | ok tick =>
    cases hlock : g.poisoned with
    | true =>
      rw [poll_of_poisoned htick hlock, poll_of_poisoned (hset ▸ htick) (hpoisoned ▸ hlock)]
      exact ⟨rfl, fun _ => rfl⟩
    | false =>
      rw [poll_of_free htick hlock, poll_of_free (hset ▸ htick) (hpoisoned ▸ hlock), hset, hhistory]
      cases e : g.settings.advance g.history r tick with
      | ok result => exact ⟨rfl, fun _ => rfl⟩
      | error failure =>
        cases failure with
        | error cause => exact ⟨rfl, fun _ => rfl⟩
        | panic p =>
          obtain rfl := IdSettings.advance_eq_panic e
          exact ⟨rfl, fun h => absurd rfl h⟩

/-- The answers up to the first overflow, this one included. -/
def throughOverflow : List (Outcome Poll) → List (Outcome Poll)
  | [] => []
  | a :: answers => if a = overflow then [a] else a :: throughOverflow answers

theorem throughOverflow_keptBy (g : IdGenerator) (s : Sharing) (rs : List Reading) :
    throughOverflow ((g.keptBy s).pollAll rs).1 = throughOverflow (g.pollAll rs).1 := by
  induction rs generalizing g with
  | nil => rfl
  | cons r rs ih =>
    obtain ⟨hanswer, hrest⟩ := g.poll_keptBy s r
    rw [pollAll_cons, pollAll_cons, throughOverflow, throughOverflow, hanswer]
    by_cases hover : (g.poll r).1 = overflow
    · rw [if_pos hover, if_pos hover]
    · rw [if_neg hover, if_neg hover, hrest hover, ih]

def refusal (c : IdSettings) (r : Reading) : Outcome Poll :=
  match c.layout.tickOf r.now with
  | .error e => .error (.error e)
  | .ok _ => .error (.error .lockPoisoned)

theorem pollAll_of_poisoned (hlock : g.poisoned = true) (rs : List Reading) :
    g.pollAll rs = (rs.map (refusal g.settings), g) := by
  induction rs with
  | nil => rfl
  | cons r rs ih =>
    have hpoll : g.poll r = (refusal g.settings r, g) := by
      unfold refusal
      cases htick : g.settings.layout.tickOf r.now with
      | error e => rw [poll_of_noTick htick]
      | ok tick => rw [poll_of_poisoned htick hlock]
    rw [pollAll_cons, hpoll, ih, List.map_cons]

/-- Up to an overflow, the two ways lead to the same memory. -/
theorem pollAll_keptBy (hwords : overflow ∉ (g.pollAll rs).1) (s : Sharing) :
    (g.keptBy s).pollAll rs = ((g.pollAll rs).1, (g.pollAll rs).2.keptBy s) := by
  induction rs generalizing g with
  | nil => rfl
  | cons r rs ih =>
    rw [pollAll_cons] at hwords ⊢
    rw [List.mem_cons, not_or] at hwords
    obtain ⟨hanswer, hrest⟩ := g.poll_keptBy s r
    rw [pollAll_cons, hanswer, hrest fun h => hwords.1 h.symm, ih hwords.2]

end IdGenerator

/-! ### Scripts -/

namespace IdBench

/-- What the next poll reads: the worker id, and then the clock. -/
def reading (b : IdBench) : Reading := ⟨b.readClock.1, b.worker.read⟩

def readings : Nat → IdBench → List Reading
  | 0, _ => []
  | n + 1, b => b.reading :: readings n b.readClock.2

def pollTimes : Nat → IdBench → List (Outcome Poll)
  | 0, _ => []
  | n + 1, b => b.poll.1 :: pollTimes n b.poll.2

def under (b : IdBench) (g : IdGenerator) : IdBench := { b with generator := g }

theorem readClock_under (b : IdBench) (g : IdGenerator) :
    (b.under g).readClock = (b.readClock.1, b.readClock.2.under g) := by
  cases hscript : b.script with
  | nil =>
    unfold readClock
    simp only [under, hscript]
  | cons e rest =>
    unfold readClock
    simp only [under, hscript]

theorem poll_under (b : IdBench) (g : IdGenerator) :
    (b.under g).poll = ((g.poll b.reading).1, b.readClock.2.under (g.poll b.reading).2) := by
  unfold poll
  rw [readClock_under]
  rfl

/-- A generator polls at what its bench reads, and does not change that. -/
theorem pollTimes_under (b : IdBench) (g : IdGenerator) (n : Nat) :
    (b.under g).pollTimes n = (g.pollAll (b.readings n)).1 := by
  induction n generalizing b g with
  | zero => rfl
  | succ n ih => rw [pollTimes, poll_under, ih, readings, IdGenerator.pollAll_cons]

end IdBench

/-! ### Alike up to an overflow -/

namespace IdGenerator

def answers (s : Sharing) (c : IdSettings) (rs : List Reading) : List (Outcome Poll) :=
  ((fresh s c).pollAll rs).1

/-- After a poll at `r` a single caller's generator goes on as if that poll had not been made, and a
shared one refuses. -/
def PartWays (c : IdSettings) (before : List Reading) (r : Reading) (after : List Reading) : Prop :=
  ∃ rest, answers .exclusive c (before ++ after) = answers .exclusive c before ++ rest ∧
    answers .exclusive c (before ++ r :: after) = answers .exclusive c before ++ overflow :: rest ∧
    answers .locked c (before ++ r :: after) =
      answers .exclusive c before ++ overflow :: after.map (refusal c)

/-- A generator of a single caller and one behind a lock answer the same polls. -/
structure KeepAlike (c : IdSettings) : Prop where
  /-- A copy that is written back is how a single caller's generator keeps its memory. -/
  cell : ∀ rs, answersIn c.pollCell {} rs = answers .exclusive c rs
  /-- Working in place under a lock is how a shared one does. -/
  guarded : ∀ rs, answersIn c.pollGuarded {} rs = answers .locked c rs
  /-- Under one script both poll at the same readings. -/
  scripted : ∀ (b : IdBench) (s : Sharing) (n : Nat),
    (b.under (fresh s c)).pollTimes n = answers s c (b.readings n)
  /-- They agree up to and including the first overflow. -/
  upToOverflow : ∀ rs,
    throughOverflow (answers .locked c rs) = throughOverflow (answers .exclusive c rs)
  /-- There they part. -/
  afterOverflow : ∀ before r after, overflow ∉ answers .exclusive c before →
    answers .exclusive c (before ++ [r]) = answers .exclusive c before ++ [overflow] →
      PartWays c before r after
  /-- A refusal is for the timestamp if the reading has no tick, and for the lock otherwise. -/
  refusal_eq : ∀ r,
    (∃ value, c.layout.tickOf r.now = .error (.domain .timestamp value (c.layout.max .timestamp)) ∧
      refusal c r = .error (.error (.domain .timestamp value (c.layout.max .timestamp)))) ∨
    ∃ tick, c.layout.tickOf r.now = .ok tick ∧ refusal c r = .error (.error .lockPoisoned)

theorem partWays_of_overflow {c : IdSettings} {before : List Reading} {r : Reading}
    (after : List Reading) (hwords : overflow ∉ answers .exclusive c before)
    (hover : answers .exclusive c (before ++ [r]) = answers .exclusive c before ++ [overflow]) :
    PartWays c before r after := by
  obtain ⟨g, hg⟩ : ∃ g, ((fresh .exclusive c).pollAll before).2 = g := ⟨_, rfl⟩
  have hset : g.settings = c := by
    rw [← hg, settings_pollAll]
    rfl
  have hsharing : g.sharing = .exclusive := by
    rw [← hg, sharing_pollAll]
    rfl
  have hanswer : (g.poll r).1 = overflow := by
    unfold answers at hover
    rw [pollAll_append, hg] at hover
    exact List.head_eq_of_cons_eq (List.append_cancel_left hover)
  have hlocked : (fresh .locked c).pollAll before =
      (((fresh .exclusive c).pollAll before).1, g.keptBy .locked) := by
    rw [← hg]
    exact pollAll_keptBy hwords .locked
  refine ⟨(g.pollAll after).1, ?_, ?_, ?_⟩
  · unfold answers
    rw [pollAll_append, hg]
  · -- without a lock the poll has changed nothing
    have hself : (g.poll r).2 = g := by
      apply poll_eq_self
      · rw [hanswer]
        rfl
      · rw [hsharing]
        exact nofun
    unfold answers
    rw [pollAll_append, hg, pollAll_cons, hanswer, hself]
  · have hpanic : ((g.keptBy .locked).poll r).1 = overflow :=
      (g.poll_keptBy .locked r).1.trans hanswer
    have hpoisoned : ((g.keptBy .locked).poll r).2.poisoned = true := by
      rw [(poll_of_overflow hpanic).2]
      rfl
    have hnext : ((g.keptBy .locked).poll r).2.settings = c := (settings_poll _ r).trans hset
    unfold answers
    rw [pollAll_append, hlocked, pollAll_cons, hpanic, pollAll_of_poisoned hpoisoned, hnext]

/-- A generator of a single caller and one behind a lock answer alike, up to and including the first
overflow; then the one goes on without that poll, and the other refuses for good. -/
theorem keep_alike (c : IdSettings) : KeepAlike c where
  cell _ := answersIn_pollCell (g := fresh .exclusive c) rfl rfl
  guarded _ := answersIn_pollGuarded (g := fresh .locked c) rfl
  scripted b s n := b.pollTimes_under (fresh s c) n
  upToOverflow rs := (fresh .exclusive c).throughOverflow_keptBy .locked rs
  afterOverflow _ _ after hwords hover := partWays_of_overflow after hwords hover
  refusal_eq r := by
    unfold refusal
    cases htick : c.layout.tickOf r.now with
    | error e =>
      obtain ⟨value, rfl⟩ := IdLayout.tickOf_eq_error htick
      exact .inl ⟨value, rfl, rfl⟩
    | ok tick => exact .inr ⟨tick, rfl, rfl⟩

/-- The second worker has to wait for a tick that no word can say; then the first one polls again. -/
theorem keep_alike_of_lastTicks :
    answers .exclusive lastTicks [⟨18446744073709551615, 1⟩, ⟨18446744073709551615, 2⟩,
        ⟨18446744073709551615, 1⟩, ⟨5, 1⟩] =
      [.ok (.ready ⟨16392⟩), overflow, .ok (.ready ⟨16393⟩),
        .error (.error (.domain .timestamp (-18446744073709551608) 2199023255551))] ∧
    answers .locked lastTicks [⟨18446744073709551615, 1⟩, ⟨18446744073709551615, 2⟩,
        ⟨18446744073709551615, 1⟩, ⟨5, 1⟩] =
      [.ok (.ready ⟨16392⟩), overflow, .error (.error .lockPoisoned),
        .error (.error (.domain .timestamp (-18446744073709551608) 2199023255551))] := by
  have hbefore : answers .exclusive lastTicks [⟨18446744073709551615, 1⟩] =
      [.ok (.ready ⟨16392⟩)] := by
    decide +kernel
  obtain ⟨rest, hwithout, halone, hlocked⟩ := (keep_alike lastTicks).afterOverflow
    [⟨18446744073709551615, 1⟩] ⟨18446744073709551615, 2⟩ [⟨18446744073709551615, 1⟩, ⟨5, 1⟩]
    (by decide +kernel) (by decide +kernel)
  have hrest : answers .exclusive lastTicks
      ([⟨18446744073709551615, 1⟩] ++ [⟨18446744073709551615, 1⟩, ⟨5, 1⟩]) =
        [.ok (.ready ⟨16392⟩)] ++ [.ok (.ready ⟨16393⟩),
          .error (.error (.domain .timestamp (-18446744073709551608) 2199023255551))] := by
    decide +kernel
  have hrefusals : [⟨18446744073709551615, 1⟩, ⟨5, 1⟩].map (refusal lastTicks) =
      [.error (.error .lockPoisoned),
        .error (.error (.domain .timestamp (-18446744073709551608) 2199023255551))] := by
    decide +kernel
  rw [hbefore, hrest] at hwithout
  rw [hbefore, ← List.append_cancel_left hwithout] at halone
  rw [hbefore, hrefusals] at hlocked
  exact ⟨halone, hlocked⟩

end IdGenerator
end StoreClient

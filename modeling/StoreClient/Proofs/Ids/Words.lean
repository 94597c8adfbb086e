import StoreClient.Proofs.Ids.FieldBits
import StoreClient.Proofs.Ids.Keeping
import StoreClient.Proofs.Ids.Overtaking
import StoreClient.Proofs.Ids.Waiting

/-! # Polls in words

`IdSettings.pollInWords` is a poll in place, with every operation checked against the type of its
result: masks and shifts, the places of the fields in a byte, sums, differences, products and spans.
On what a generator remembers it ends as the poll does, and no operation overflows but the two that
find where an awaited tick begins (`WordsAgree`).  `IdGenerator.overflow_exactly` says when they do:
a poll has to wait for the tick after the last one, which begins past the largest word. -/

namespace StoreClient

/-- An operation of a poll whose result has to fit its type. -/
inductive Operation where
  /-- The ones that make up the largest value of a field. -/
  | mask (f : Field)
  /-- How far a field is shifted, and the shift. -/
  | place (f : Field)
  /-- A reading before the epoch: the negative distance. -/
  | early
  /-- The time since the epoch. -/
  | elapsed
  /-- How far a reading is behind the mark. -/
  | behind
  | nextTick
  | nextNumber
  /-- A tick in milliseconds since the epoch. -/
  | tickLength
  /-- A tick in milliseconds since the Unix epoch. -/
  | tickStart
  /-- A span of milliseconds in seconds and nanoseconds. -/
  | span
  deriving DecidableEq, Repr

/-- What ends a poll in words without an answer: a cause, or an operation whose result does not
fit. -/
inductive WordFailure where
  | error (cause : Error)
  | overflow (operation : Operation)
  deriving DecidableEq, Repr

/-- A program on the memory in place whose operations are checked. -/
abbrev InWords := EStateM WordFailure Memory

/-- The result of an operation, if it fits. -/
def fitting {α : Type} (operation : Operation) : Option α → Except WordFailure α
  | some a => .ok a
  | none => .error (.overflow operation)

def checkedByteAdd (a b : Nat) : Option Nat := if a + b ≤ 255 then some (a + b) else none

/-- The word shifted by fewer places than it has; bits past it are lost. -/
def checkedShift (v : UInt64) (places : Nat) : Option UInt64 :=
  if places < 64 then some (v <<< places.toUInt64) else none

/-- The difference as a signed number of 128 bits. -/
def checkedDifference (a b : Nat) : Option Int :=
  if -2 ^ 127 ≤ (a : Int) - b ∧ (a : Int) - b < 2 ^ 127 then some (a - b) else none

/-- A product of words of 32 bits. -/
def checkedHalfMul (a b : Nat) : Option Nat := if a * b < 2 ^ 32 then some (a * b) else none

/-- A span in whole seconds and the nanoseconds past them. -/
def Duration.ofMillisInWords (m : Nat) : Except WordFailure Duration := do
  let nanos ← fitting .span (checkedHalfMul (m % 1000) nanosPerMilli)
  fitting .span (ofParts? (m / 1000) nanos)

namespace IdLayout

def maskInWords (l : IdLayout) (f : Field) : Except WordFailure Nat := do
  let power ← fitting (.mask f) (checkedShift 1 (l.width f))
  fitting (.mask f) (checkedSub power.toNat 1)

def checkInWords (l : IdLayout) (f : Field) (value : Nat) : Except WordFailure Unit := do
  let max ← l.maskInWords f
  if value ≤ max then .ok () else .error (.error (.domain f value max))

def encodeInWords (l : IdLayout) (p : IdParts) : Except WordFailure SnowflakeId := do
  l.checkInWords .timestamp p.timestamp
  l.checkInWords .workerId p.workerId
  l.checkInWords .sequence p.sequence
  let places ← fitting (.place .timestamp) (checkedByteAdd l.sequenceBits l.workerBits)
  let timestamp ← fitting (.place .timestamp) (checkedShift p.timestamp.toUInt64 places)
  let worker ← fitting (.place .workerId) (checkedShift p.workerId.toUInt64 l.sequenceBits)
  return ⟨timestamp ||| worker ||| p.sequence.toUInt64⟩

def tickInWords (l : IdLayout) (now : UInt64) : Except WordFailure Nat := do
  if now.toNat < l.epochMillis then
    let early ← fitting .early (checkedDifference now.toNat l.epochMillis)
    let max ← l.maskInWords .timestamp
    .error (.error (.domain .timestamp early max))
  else
    let elapsed ← fitting .elapsed (checkedSub now.toNat l.epochMillis)
    l.checkInWords .timestamp (elapsed / l.unit.millisPerTick)
    return elapsed / l.unit.millisPerTick

def waitInWords (l : IdLayout) (tick : Nat) (now : UInt64) : Except WordFailure Duration := do
  let length ← fitting .tickLength (checkedMul tick l.unit.millisPerTick)
  let start ← fitting .tickStart (checkedAdd l.epochMillis length)
  Duration.ofMillisInWords (Nat.max (start - now.toNat) 1)

end IdLayout

namespace IdSettings

def deferInWords (c : IdSettings) (tick : Nat) (r : Reading) : InWords Poll := do
  return .pending (← MonadExcept.ofExcept (c.layout.waitInWords tick r.now))

/-- Lets the caller wait for the tick after the last one. -/
def deferPastInWords (c : IdSettings) (memory : Memory) (r : Reading) : InWords Poll := do
  c.deferInWords (← MonadExcept.ofExcept (fitting .nextTick (checkedAdd memory.tick 1))) r

/-- Issues the id of the next memory, and writes that one down. -/
def issueInWords (c : IdSettings) (memory next : Memory) (r : Reading) : InWords Poll := do
  let id ← MonadExcept.ofExcept (c.layout.encodeInWords ⟨next.tick, next.worker, next.sequence⟩)
  set { next with issued := true, highWater := Nat.max memory.highWater r.now.toNat }
  return .ready id

def blameInWords (memory : Memory) (r : Reading) : InWords Poll := do
  let m ← MonadExcept.ofExcept (fitting .behind (checkedSub memory.highWater r.now.toNat))
  throw (.error (.clockRegression (← MonadExcept.ofExcept (Duration.ofMillisInWords m))))

/-- One poll at a reading whose tick is `tick`. -/
def advanceInWords (c : IdSettings) (r : Reading) (tick : Nat) : InWords Poll := do
  let memory ← get
  let worker := r.worker.toNat
  if memory.issued ∧
      saturatingAdd r.now.toNat c.maxClockDrift.cappedMillis < memory.highWater then
    blameInWords memory r
  else if memory.issued ∧ worker ≠ memory.worker ∧ tick ≤ memory.tick then
    c.deferPastInWords memory r
  else if ¬memory.issued ∨ worker ≠ memory.worker ∨ memory.tick < tick then
    c.issueInWords memory { memory with tick := tick, worker := worker, sequence := 0 } r
  else if tick = memory.tick then
    if (← MonadExcept.ofExcept (c.layout.maskInWords .sequence)) ≤ memory.sequence then
      c.deferPastInWords memory r
    else
      let number ← MonadExcept.ofExcept (fitting .nextNumber (checkedAdd memory.sequence 1))
      c.issueInWords memory { memory with sequence := number } r
  else c.deferInWords memory.tick r

def pollInWords (c : IdSettings) (r : Reading) : InWords Poll := do
  c.advanceInWords r (← MonadExcept.ofExcept (c.layout.tickInWords r.now))

end IdSettings

/-! ### Operations that fit -/

theorem fitting_some_bind {α β : Type} (operation : Operation) (a : α)
    (f : α → Except WordFailure β) : (fitting operation (some a) >>= f) = f a := rfl

theorem ok_bind {α β : Type} (a : α) (f : α → Except WordFailure β) :
    ((.ok a : Except WordFailure α) >>= f) = f a := rfl

theorem ofExcept_ok_bind {α β : Type} (a : α) (f : α → InWords β) :
    (MonadExcept.ofExcept (.ok a : Except WordFailure α) >>= f) = f a := rfl

theorem checkedShift_of_lt {v : UInt64} {places : Nat} (h : places < 64) :
    checkedShift v places = some (v <<< places.toUInt64) :=
  if_pos h

theorem Duration.ofMillisInWords_eq {m : Nat} (h : m ≤ wordMax) :
    ofMillisInWords m = .ok (ofMillis m) := by
  have hnanos : checkedHalfMul (m % 1000) nanosPerMilli = some (m % 1000 * nanosPerMilli) := by
    refine if_pos ?_
    have hlt : m % 1000 < 1000 := Nat.mod_lt m (by decide)
    simp only [nanosPerMilli]
    omega
  have hsum : m / 1000 * nanosPerSecond + m % 1000 * nanosPerMilli = m * nanosPerMilli := by
    simp only [nanosPerSecond, nanosPerMilli]
    omega
  have hseconds : (ofMillis m).seconds ≤ wordMax :=
    Nat.le_trans (seconds_le_wholeMillis _) (by rwa [wholeMillis_ofMillis])
  have hparts : ofParts? (m / 1000) (m % 1000 * nanosPerMilli) = some (ofMillis m) := by
    unfold ofParts? checked
    rw [hsum]
    exact if_pos hseconds
  unfold ofMillisInWords
  rw [hnanos, fitting_some_bind, hparts]
  rfl

namespace IdLayout

variable {l : IdLayout}

theorem width_le (l : IdLayout) (f : Field) : l.width f ≤ 61 := by
  have ht := l.timestampBits_pos
  have hw := l.workerBits_pos
  have hs := l.sequenceBits_pos
  have hbits := l.bits_le
  cases f <;> simp only [width] <;> omega

theorem max_lt_wordMax (l : IdLayout) (f : Field) : l.max f < wordMax := by
  have hpow : l.capacity f ≤ 2 ^ 61 := Nat.pow_le_pow_right (by decide) (l.width_le f)
  have hword : 2 ^ 61 < wordMax := by decide
  exact Nat.lt_of_le_of_lt (Nat.le_trans (Nat.sub_le _ 1) hpow) hword

theorem maskInWords_eq (l : IdLayout) (f : Field) : l.maskInWords f = .ok (l.max f) := by
  have hwidth := l.width_le f
  have hpower : ((1 : UInt64) <<< (l.width f).toUInt64).toNat = 2 ^ l.width f := by
    have := toNat_shiftLeft_of_lt (v := 1) (w := 1) (k := l.width f) (by decide) (by omega)
    rwa [Nat.one_mul] at this
  unfold maskInWords
  rw [checkedShift_of_lt (by omega), fitting_some_bind, hpower,
    checkedSub_of_le Nat.one_le_two_pow]
  rfl

theorem checkInWords_eq (l : IdLayout) (f : Field) (v : Nat) :
    l.checkInWords f v = (l.check f v).mapError .error := by
  unfold checkInWords check
  rw [maskInWords_eq, ok_bind]
  split
  · rfl
  · rfl

theorem encodeInWords_eq (l : IdLayout) (p : IdParts) :
    l.encodeInWords p = (l.encode p).mapError .error := by
  have hbits := l.bits_le
  have hplaces : checkedByteAdd l.sequenceBits l.workerBits =
      some (l.sequenceBits + l.workerBits) := if_pos (by omega)
  unfold encodeInWords encode
  rw [hplaces, fitting_some_bind, checkedShift_of_lt (by omega), fitting_some_bind,
    checkedShift_of_lt (by omega), fitting_some_bind, checkInWords_eq, checkInWords_eq,
    checkInWords_eq]
  cases ht : l.check .timestamp p.timestamp with
  | error e => rfl
  | ok =>
    cases hw : l.check .workerId p.workerId with
    | error e => rfl
    | ok =>
      cases hs : l.check .sequence p.sequence with
      | error e => rfl
      | ok =>
        have hfit : l.Fits p :=
          ⟨check_eq_ok_iff.mp ht, check_eq_ok_iff.mp hw, check_eq_ok_iff.mp hs⟩
        show Except.ok (SnowflakeId.mk (l.shifted p)) = _
        rw [shifted_eq hfit]
        rfl

theorem tickInWords_eq (l : IdLayout) (now : UInt64) :
    l.tickInWords now = (l.tickOf now).mapError .error := by
  have hnow := toNat_le_wordMax now
  have hepoch : l.epochMillis ≤ wordMax := Duration.cappedMillis_le _
  have hword : (wordMax : Int) < 2 ^ 127 := by decide
  unfold tickInWords tickOf
  split
  · have hearly : checkedDifference now.toNat l.epochMillis =
        some ((now.toNat : Int) - l.epochMillis) := if_pos (by omega)
    rw [hearly, fitting_some_bind, maskInWords_eq]
    rfl
  · next hle =>
    rw [checkedSub_of_le (Nat.not_lt.mp hle), fitting_some_bind, checkInWords_eq]
    dsimp only
    cases hcheck : l.check .timestamp ((now.toNat - l.epochMillis) / l.unit.millisPerTick) with
    | error e => rfl
    | ok => rfl

/-- A wait in words ends as a wait does, and overflows only where the awaited tick begins. -/
theorem waitInWords_cases (l : IdLayout) (tick : Nat) (now : UInt64) :
    (∃ d, l.waitFor tick now = .ok d ∧ l.waitInWords tick now = .ok d) ∨
      ∃ operation ∈ [Operation.tickLength, .tickStart],
        l.waitFor tick now = .error (.panic .arithmetic) ∧
          l.waitInWords tick now = .error (.overflow operation) := by
  have hpast : wordMax < l.tickStart tick → l.waitFor tick now = .error (.panic .arithmetic) :=
    waitFor_of_wordMax_lt
  unfold tickStart at hpast
  unfold waitInWords checkedMul checkedAdd
  by_cases hlength : tick * l.unit.millisPerTick ≤ wordMax
  · rw [if_pos hlength, fitting_some_bind]
    by_cases hstart : l.epochMillis + tick * l.unit.millisPerTick ≤ wordMax
    · rw [if_pos hstart, fitting_some_bind, Duration.ofMillisInWords_eq]
      · exact .inl ⟨_, if_neg (Nat.not_lt.mpr hstart), rfl⟩
      · exact Nat.max_le.mpr ⟨Nat.le_trans (Nat.sub_le _ _) hstart, by decide⟩
    · rw [if_neg hstart]
      exact .inr ⟨.tickStart, by decide, hpast (Nat.not_le.mp hstart), rfl⟩
  · rw [if_neg hlength]
    exact .inr ⟨.tickLength, by decide, hpast (by omega), rfl⟩

end IdLayout

/-! ### Programs that agree -/

/-- In words a program ends as it does without: with the same value or cause, and on the same
memory.  Where it overflows, it was about to find the beginning of an awaited tick. -/
inductive WordsAgree {α : Type} :
    EStateM.Result WordFailure Memory α → EStateM.Result Failure Memory α → Prop
  | ok (a : α) (memory : Memory) : WordsAgree (.ok a memory) (.ok a memory)
  | error (cause : Error) (memory : Memory) :
    WordsAgree (.error (.error cause) memory) (.error (.error cause) memory)
  | overflow {operation : Operation} (waits : operation ∈ [Operation.tickLength, .tickStart])
    (memory : Memory) :
    WordsAgree (.error (.overflow operation) memory) (.error (.panic .arithmetic) memory)

namespace IdSettings

variable {c : IdSettings} {h : Option Issued} {r : Reading} {tick : Nat} {memory : Memory}

theorem deferInWords_agrees (tick : Nat) :
    WordsAgree ((c.deferInWords tick r).run memory) ((c.deferInPlace tick r).run memory) := by
  unfold deferInWords deferInPlace
  rcases c.layout.waitInWords_cases tick r.now with
    ⟨d, hwait, hwords⟩ | ⟨operation, hoperation, hwait, hwords⟩
  · rw [hwait, hwords]
    exact .ok _ _
  · rw [hwait, hwords]
    exact .overflow hoperation _

theorem deferPastInWords_agrees (last : Memory) (htick : last.tick < wordMax) :
    WordsAgree ((c.deferPastInWords last r).run memory)
      ((c.deferInPlace (last.tick + 1) r).run memory) := by
  unfold deferPastInWords
  rw [checkedAdd_of_le htick]
  exact deferInWords_agrees (last.tick + 1)

theorem issueInWords_agrees (last next : Memory) :
    WordsAgree ((c.issueInWords last next r).run memory)
      ((c.issueInPlace last next r).run memory) := by
  unfold issueInWords issueInPlace
  rw [IdLayout.encodeInWords_eq]
  cases c.layout.encode ⟨next.tick, next.worker, next.sequence⟩ with
  | ok id => exact .ok _ _
  | error e => exact .error _ _

theorem blameInWords_agrees (last : Memory) (hbehind : r.now.toNat ≤ last.highWater)
    (hmark : last.highWater ≤ wordMax) :
    WordsAgree ((blameInWords last r).run memory)
      (.error (.error (.clockRegression (.ofMillis (last.highWater - r.now.toNat)))) memory) := by
  have hspan := Duration.ofMillisInWords_eq (Nat.le_trans (Nat.sub_le _ r.now.toNat) hmark)
  unfold blameInWords
  rw [checkedSub_of_le hbehind, fitting, ofExcept_ok_bind, hspan, ofExcept_ok_bind]
  exact .error _ _

/-- What a generator keeps has room for the next tick and the next number. -/
structure HasRoom (memory : Memory) : Prop where
  tick : memory.tick < wordMax
  sequence : memory.sequence < wordMax
  highWater : memory.highWater ≤ wordMax

theorem advanceInWords_agrees (hm : HasRoom memory) :
    WordsAgree ((c.advanceInWords r tick).run memory) ((c.advanceInPlace r tick).run memory) := by
  unfold advanceInWords advanceInPlace
  simp only [EStateM.run_bind, EStateM.run_get]
  split
  · next hb =>
    have hbehind : r.now.toNat ≤ memory.highWater := by
      have hlt := hb.2
      have hmark := hm.highWater
      unfold saturatingAdd at hlt
      omega
    exact blameInWords_agrees memory hbehind hm.highWater
  split
  · exact deferPastInWords_agrees memory hm.tick
  split
  · exact issueInWords_agrees memory _
  split
  · rw [IdLayout.maskInWords_eq, ofExcept_ok_bind]
    split
    · exact deferPastInWords_agrees memory hm.tick
    · rw [checkedAdd_of_le hm.sequence]
      exact issueInWords_agrees memory _
  · exact deferInWords_agrees memory.tick

theorem hasRoom_ofHistory (hh : ∀ last ∈ h, last.Consistent c.layout) :
    HasRoom (.ofHistory h) := by
  cases h with
  | none => exact ⟨by decide, by decide, by decide⟩
  | some last =>
    have hlast := hh last rfl
    exact ⟨Nat.lt_of_le_of_lt hlast.fits.timestamp (c.layout.max_lt_wordMax _),
      Nat.lt_of_le_of_lt hlast.fits.sequence (c.layout.max_lt_wordMax _), hlast.word⟩

/-! ### Where a poll overflows -/

theorem defer_eq_overflow_iff {t : Nat} :
    c.defer t r h = .error (.panic .arithmetic) ↔ wordMax < c.layout.tickStart t := by
  unfold defer
  by_cases hlt : wordMax < c.layout.tickStart t
  · rw [IdLayout.waitFor_of_wordMax_lt hlt]
    exact iff_of_true rfl hlt
  · have hwait : c.layout.waitFor t r.now = .ok _ := if_neg hlt
    rw [hwait]
    exact iff_of_false nofun hlt

/-- On consistent memory a poll overflows where it has to wait for the tick after the last one, and
that one begins past the largest word. -/
theorem advance_eq_overflow_iff {last : Issued} (hlast : last.Consistent c.layout) :
    c.advance (some last) r tick = .error (.panic .arithmetic) ↔
      c.tooFarBehind last r.now = false ∧ tick ≤ last.tick ∧
        (r.worker.toNat ≠ last.worker ∨
          tick = last.tick ∧ last.sequence = c.layout.max .sequence) ∧
        wordMax < c.layout.tickStart (last.tick + 1) := by
  unfold advance
  dsimp only
  split
  · next hb => exact iff_of_false nofun fun h => absurd hb (Bool.eq_false_iff.mp h.1)
  next hb =>
  have hnear := Bool.eq_false_iff.mpr hb
  split
  · next hlt => exact iff_of_false issue_ne_panic fun h => absurd hlt (Nat.not_lt.mpr h.2.1)
  next hlt =>
  have hle := Nat.not_lt.mp hlt
  split
  · next hw =>
    rw [defer_eq_overflow_iff]
    exact ⟨fun h => ⟨hnear, hle, .inl hw, h⟩, fun h => h.2.2.2⟩
  next hw =>
  split
  · -- the last tick itself has begun at the mark, which is a word
    next hbefore =>
    rw [defer_eq_overflow_iff]
    refine iff_of_false (Nat.not_lt.mpr (Nat.le_trans hlast.started hlast.word)) ?_
    rintro ⟨-, -, hother | ⟨hsame, -⟩, -⟩
    · exact hw hother
    · exact absurd hsame (Nat.ne_of_lt hbefore)
  next hge =>
  have htick := Nat.le_antisymm hle (Nat.not_lt.mp hge)
  split
  · next hseq =>
    refine iff_of_false issue_ne_panic ?_
    rintro ⟨-, -, hother | ⟨-, hfull⟩, -⟩
    · exact hw hother
    · exact absurd hfull (Nat.ne_of_lt hseq)
  · next hseq =>
    have hfull := Nat.le_antisymm hlast.fits.sequence (Nat.not_lt.mp hseq)
    rw [defer_eq_overflow_iff]
    exact ⟨fun h => ⟨hnear, hle, .inr ⟨htick, hfull⟩, h⟩, fun h => h.2.2.2⟩

end IdSettings

namespace IdGenerator

variable {g : IdGenerator} {c : IdSettings}

def ended (g : IdGenerator) (r : Reading) : EStateM.Result Failure Memory Poll :=
  match g.poll r with
  | (.ok a, g') => .ok a (.ofHistory g'.history)
  | (.error e, g') => .error e (.ofHistory g'.history)

theorem ended_of_tickOf {r : Reading} {tick : Nat} (hfree : g.poisoned = false)
    (htick : g.settings.layout.tickOf r.now = .ok tick) :
    g.ended r = IdSettings.ending g.history (g.settings.advance g.history r tick) := by
  unfold ended
  rw [poll_of_free htick hfree]
  cases g.settings.advance g.history r tick with
  | ok answer => rfl
  | error failure =>
    cases failure with
    | error e => rfl
    | panic p => rfl

theorem pollInWords_agrees (hfree : g.poisoned = false)
    (hcons : ∀ last ∈ g.history, last.Consistent g.settings.layout) (r : Reading) :
    WordsAgree ((g.settings.pollInWords r).run (.ofHistory g.history)) (g.ended r) := by
  unfold IdSettings.pollInWords
  rw [IdLayout.tickInWords_eq]
  cases htick : g.settings.layout.tickOf r.now with
  | error e =>
    unfold ended
    rw [poll_of_noTick htick]
    exact .error _ _
  | ok tick =>
    rw [ended_of_tickOf hfree htick, ← IdSettings.run_advanceInPlace]
    exact IdSettings.advanceInWords_agrees (IdSettings.hasRoom_ofHistory hcons)

theorem poll_eq_overflow_iff {r : Reading} (hfree : g.poisoned = false)
    (hcons : ∀ last ∈ g.history, last.Consistent g.settings.layout) :
    (g.poll r).1 = overflow ↔
      ∃ tick last, g.settings.layout.tickOf r.now = .ok tick ∧ g.history = some last ∧
        g.settings.tooFarBehind last r.now = false ∧ tick ≤ last.tick ∧
        (r.worker.toNat ≠ last.worker ∨
          tick = last.tick ∧ last.sequence = g.settings.layout.max .sequence) ∧
        wordMax < g.settings.layout.tickStart (last.tick + 1) := by
  cases htick : g.settings.layout.tickOf r.now with
  | error e =>
    rw [poll_of_noTick htick]
    exact iff_of_false nofun fun ⟨_, _, h, _⟩ => nomatch h
  | ok tick =>
    have hanswer : (g.poll r).1 = overflow ↔
        g.settings.advance g.history r tick = .error (.panic .arithmetic) := by
      rw [poll_of_tickOf hfree htick]
      cases g.settings.advance g.history r tick with
      | ok answer => exact iff_of_false nofun nofun
      | error failure =>
        constructor
        · rintro ⟨⟩
          rfl
        · rintro ⟨⟩
          rfl
    rw [hanswer]
    cases hhistory : g.history with
    | none => exact iff_of_false IdSettings.issue_ne_panic fun ⟨_, _, _, h, _⟩ => nomatch h
    | some last =>
      rw [IdSettings.advance_eq_overflow_iff (hcons last hhistory)]
      constructor
      · exact fun h => ⟨tick, last, rfl, rfl, h⟩
      · rintro ⟨_, _, ⟨⟩, ⟨⟩, h⟩
        exact h

/-- In words a poll on any memory that a run leaves ends as it does without, and no operation of it
overflows but the two that find the beginning of an awaited tick.  They do exactly when the clock is
not blamed, the reading is no further than the last tick, the worker is another one or finds the
tick used up, and the tick after it begins past the largest word; nothing is forgotten then. -/
theorem overflow_exactly (hg : Reached c g) (hfree : g.poisoned = false) (r : Reading) :
    WordsAgree ((c.pollInWords r).run (.ofHistory g.history)) (g.ended r) ∧
    ((g.poll r).1 = overflow ↔
      ∃ tick last, c.layout.tickOf r.now = .ok tick ∧ g.history = some last ∧
        (∀ behind, (g.poll r).1 ≠ regression behind) ∧ tick ≤ last.tick ∧
        (r.worker.toNat ≠ last.worker ∨
          tick = last.tick ∧ last.sequence = c.layout.max .sequence) ∧
        wordMax < c.layout.epochMillis + (last.tick + 1) * c.layout.unit.millisPerTick) ∧
    ((g.poll r).1 = overflow → (g.poll r).2.history = g.history) := by
  obtain ⟨rfl, hcons⟩ := hg.consistent
  refine ⟨pollInWords_agrees hfree hcons r, ?_, ?_⟩
  · constructor
    · intro hover
      obtain ⟨tick, last, htick, hlast, -, hrest⟩ := (poll_eq_overflow_iff hfree hcons).mp hover
      have hblame : ∀ behind, (g.poll r).1 ≠ regression behind := by
        intro behind
        rw [hover]
        exact nofun
      exact ⟨tick, last, htick, hlast, hblame, hrest⟩
    · rintro ⟨tick, last, htick, hlast, hblame, hrest⟩
      have hnear : g.settings.tooFarBehind last r.now = false := by
        rw [Bool.eq_false_iff]
        intro hfar
        exact hblame _ (poll_eq_regression_iff.mpr ⟨⟨tick, htick⟩, hfree, last, hlast, hfar, rfl⟩)
      exact (poll_eq_overflow_iff hfree hcons).mpr ⟨tick, last, htick, hlast, hnear, hrest⟩
  · intro hover
    rw [(poll_of_overflow hover).2]

/-- The last millisecond has its id, so another worker waits for one that no word can say. -/
theorem overflow_exactly_of_lastTicks :
    (((fresh .locked lastTicks).pollAll [⟨18446744073709551615, 1⟩]).2.poll
      ⟨18446744073709551615, 2⟩).1 = overflow ∧
    (((fresh .locked lastTicks).pollAll [⟨18446744073709551615, 1⟩]).2.poll
      ⟨18446744073709551615, 1⟩).1 ≠ overflow := by
  have hreached : Reached lastTicks
      ((fresh .locked lastTicks).pollAll [⟨18446744073709551615, 1⟩]).2 := ⟨_, _, rfl⟩
  have hhistory : ((fresh .locked lastTicks).pollAll [⟨18446744073709551615, 1⟩]).2.history =
      some ⟨2, 1, 0, 18446744073709551615⟩ := rfl
  obtain ⟨-, hother, -⟩ := overflow_exactly hreached rfl ⟨18446744073709551615, 2⟩
  obtain ⟨-, hsame, -⟩ := overflow_exactly hreached rfl ⟨18446744073709551615, 1⟩
  constructor
  · refine hother.mpr ⟨2, _, rfl, hhistory, ?_, by decide, .inl (by decide), by decide⟩
    intro behind hblame
    exact nomatch hblame
  · intro hover
    obtain ⟨tick, last, htick, hlast, -, -, hworker | ⟨-, hfull⟩, -⟩ := hsame.mp hover
    · obtain rfl := Option.some.inj (hhistory.symm.trans hlast)
      exact hworker rfl
    · obtain rfl := Option.some.inj (hhistory.symm.trans hlast)
      exact absurd hfull (by decide)

end IdGenerator

end StoreClient

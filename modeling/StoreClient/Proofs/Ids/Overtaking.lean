import StoreClient.Proofs.Ids.Rising
import Mathlib.Logic.Function.Basic

/-! # Overtaking polls

Callers that share a locked generator read the worker id and the clock before they take the lock,
so readings reach it in any order.  `Polls` is such a generator with the polls under way on it and
a clock that never goes back; `Polls.act` lets one poll take one of its three steps.

`Error.clockRegression` blames the clock, and yet it is answered here: to a poll that was overtaken,
which means that another one read the clock later, past the tolerated drift, and had its id first
(`Polls.Overtakes`).  That is the only way, and every poll that was overtaken and gets as far as the
high-water mark fails so (`Polls.regression_exactly`). -/

namespace StoreClient

def regression (behind : Duration) : Outcome Poll := .error (.error (.clockRegression behind))

/-! ### When one poll answers so -/

namespace IdLayout

theorem check_cases (l : IdLayout) (f : Field) (v : Nat) :
    l.check f v = .ok () ∨ l.check f v = .error (.domain f v (l.max f)) := by
  unfold check
  split
  · exact .inl rfl
  · exact .inr rfl

variable {behind : Duration}

theorem encode_ne_regression (l : IdLayout) (p : IdParts) :
    l.encode p ≠ .error (.clockRegression behind) := by
  unfold encode
  rcases l.check_cases .timestamp p.timestamp with ht | ht
  · rcases l.check_cases .workerId p.workerId with hw | hw
    · rcases l.check_cases .sequence p.sequence with hs | hs
      · rw [ht, hw, hs]
        exact nofun
      · rw [ht, hw, hs]
        exact nofun
    · rw [ht, hw]
      exact nofun
  · rw [ht]
    exact nofun

theorem tickOf_ne_regression (l : IdLayout) (now : UInt64) :
    l.tickOf now ≠ .error (.clockRegression behind) := by
  unfold tickOf
  split
  · exact nofun
  · rcases l.check_cases .timestamp ((now.toNat - l.epochMillis) / l.unit.millisPerTick) with h | h
    · simp only [h]
      exact nofun
    · simp only [h]
      exact nofun

theorem waitFor_cases (l : IdLayout) (tick : Nat) (now : UInt64) :
    (∃ d, l.waitFor tick now = .ok d) ∨ l.waitFor tick now = .error (.panic .arithmetic) := by
  unfold waitFor
  by_cases h : wordMax < l.epochMillis + tick * l.unit.millisPerTick
  · exact .inr (if_pos h)
  · exact .inl ⟨_, if_neg h⟩

end IdLayout

namespace IdSettings

variable {c : IdSettings} {h : Option Issued} {r : Reading} {tick : Nat} {behind : Duration}

theorem issue_ne_regression (s hw : Nat) :
    c.issue tick s r hw ≠ .error (.error (.clockRegression behind)) := by
  unfold issue
  split
  · exact nofun
  · next e he =>
    intro h
    have hbehind : e = .clockRegression behind := Failure.error.inj (Except.error.inj h)
    exact IdLayout.encode_ne_regression _ _ (hbehind ▸ he)

theorem defer_ne_error {e : Error} (t : Nat) : c.defer t r h ≠ .error (.error e) := by
  unfold defer
  rcases c.layout.waitFor_cases t r.now with ⟨d, hd⟩ | hp
  · rw [hd]
    exact nofun
  · rw [hp]
    exact nofun

/-- The high-water mark is the only ground. -/
theorem advance_eq_regression_iff :
    c.advance h r tick = .error (.error (.clockRegression behind)) ↔
      ∃ last, h = some last ∧ c.tooFarBehind last r.now = true ∧
        behind = .ofMillis (last.highWater - r.now.toNat) := by
  unfold advance
  constructor
  · intro he
    split at he
    · exact absurd he (issue_ne_regression 0 0)
    next last =>
    split at he
    · next hb =>
      refine ⟨last, rfl, hb, ?_⟩
      have hcause := Failure.error.inj (Except.error.inj he)
      exact (Error.clockRegression.inj hcause).symm
    -- past the check, a poll issues an id or waits
    exfalso
    split at he
    · exact issue_ne_regression _ _ he
    split at he
    · exact defer_ne_error _ he
    split at he
    · exact defer_ne_error _ he
    split at he
    · exact issue_ne_regression _ _ he
    · exact defer_ne_error _ he
  · rintro ⟨last, rfl, hb, rfl⟩
    exact if_pos hb

theorem highWater_of_advance {a : Poll} {h' : Option Issued}
    (e : c.advance h r tick = .ok (a, h')) :
    ((∃ d, a = .pending d) ∧ h' = h) ∨ ∃ id i, a = .ready id ∧ h' = some i ∧
      i.highWater = Nat.max (h.elim 0 Issued.highWater) r.now.toNat := by
  have hissue : ∀ s hw, c.issue tick s r hw = .ok (a, h') → ∃ id i, a = .ready id ∧
      h' = some i ∧ i.highWater = Nat.max hw r.now.toNat := by
    intro s hw e
    unfold issue at e
    split at e
    · next id _ =>
      obtain ⟨rfl, rfl⟩ := Prod.mk.inj (Except.ok.inj e)
      exact ⟨id, _, rfl, rfl, rfl⟩
    · exact nomatch e
  unfold advance at e
  split at e
  · exact .inr (hissue _ _ e)
  next last =>
  split at e
  · exact nomatch e
  split at e
  · exact .inr (hissue _ _ e)
  split at e
  · exact .inl (defer_eq_ok e)
  split at e
  · exact .inl (defer_eq_ok e)
  split at e
  · exact .inr (hissue _ _ e)
  · exact .inl (defer_eq_ok e)

/-- The mark is a word, so that a sum stopped at the largest word compares with it as the sum. -/
theorem tooFarBehind_iff {last : Issued} {now : UInt64} (hlast : last.highWater ≤ wordMax) :
    c.tooFarBehind last now = true ↔
      now.toNat + c.maxClockDrift.cappedMillis < last.highWater := by
  unfold tooFarBehind saturatingAdd
  rw [decide_eq_true_iff]
  omega

end IdSettings

namespace IdGenerator

variable {g : IdGenerator} {r : Reading} {behind : Duration}

/-- A poll blames the clock exactly when it gets as far as the high-water mark and is too far
behind it. -/
theorem poll_eq_regression_iff :
    (g.poll r).1 = regression behind ↔
      (∃ tick, g.settings.layout.tickOf r.now = .ok tick) ∧ g.poisoned = false ∧
        ∃ last, g.history = some last ∧ g.settings.tooFarBehind last r.now = true ∧
          behind = .ofMillis (last.highWater - r.now.toNat) := by
  unfold poll regression
  constructor
  · intro h
    split at h
    · next e he =>
      have hcause : e = .clockRegression behind := Failure.error.inj (Except.error.inj h)
      exact absurd (hcause ▸ he) (IdLayout.tickOf_ne_regression _ _)
    next tick ht =>
    split at h
    · exact nomatch h
    next hp =>
    split at h
    · exact nomatch h
    · next e ha =>
      have hcause : e = .clockRegression behind := Failure.error.inj (Except.error.inj h)
      exact ⟨⟨tick, ht⟩, Bool.eq_false_iff.mpr hp,
        IdSettings.advance_eq_regression_iff.mp (hcause ▸ ha)⟩
    · exact nomatch h
  · rintro ⟨⟨tick, ht⟩, hp, hlast⟩
    have ha : g.settings.advance g.history r tick = .error (.error (.clockRegression behind)) :=
      IdSettings.advance_eq_regression_iff.mpr hlast
    simp only [ht, hp, ha, Bool.false_eq_true, if_false]

/-- A poll that issues an id moves the mark up to its reading, and every other poll remembers what
it did. -/
theorem highWater_of_poll (g : IdGenerator) (r : Reading) :
    (readyId? (g.poll r).1 = none ∧ (g.poll r).2.history = g.history) ∨
      ∃ id i, (g.poll r).1 = .ok (.ready id) ∧ (g.poll r).2.history = some i ∧
        i.highWater = Nat.max (g.history.elim 0 Issued.highWater) r.now.toNat := by
  unfold poll
  split
  · exact .inl ⟨rfl, rfl⟩
  split
  · exact .inl ⟨rfl, rfl⟩
  split
  · next e =>
    rcases IdSettings.highWater_of_advance e with ⟨⟨d, rfl⟩, rfl⟩ | ⟨id, i, rfl, rfl, hi⟩
    · exact .inl ⟨rfl, rfl⟩
    · exact .inr ⟨id, i, rfl, rfl, hi⟩
  · exact .inl ⟨rfl, rfl⟩
  · exact .inl ⟨rfl, rfl⟩

end IdGenerator

/-! ### Polls under way -/

/-- How far one poll has come. -/
inductive Visit where
  | begun
  /-- It has read the worker id. -/
  | named (worker : UInt64)
  /-- It has read the clock as well, at the given turn among the readings of all polls. -/
  | dated (reading : Reading) (turn : Nat)
  /-- It has taken the lock, and has its answer. -/
  | answered (reading : Reading) (turn : Nat) (answer : Outcome Poll)

/-- The reading of a poll that has one, and its turn. -/
def Visit.stamp? : Visit → Option (Reading × Nat)
  | dated r turn | answered r turn _ => some (r, turn)
  | begun | named _ => none

/-- A locked generator, any number of polls on its clones, and the clock. -/
structure Polls where
  generator : IdGenerator
  /-- The latest reading. -/
  clock : UInt64 := 0
  /-- How often the clock was read. -/
  turns : Nat := 0
  visits : Nat → Visit := fun _ => .begun

namespace Polls

def put (p : Polls) (place : Nat) (v : Visit) : Polls :=
  { p with visits := Function.update p.visits place v }

/-- The poll at a place has read the worker id, and reads the clock. -/
def date (p : Polls) (place : Nat) (now worker : UInt64) : Polls :=
  { p.put place (.dated ⟨now, worker⟩ p.turns) with clock := now, turns := p.turns + 1 }

def enter (p : Polls) (place : Nat) (r : Reading) (turn : Nat) : Polls :=
  { p.put place (.answered r turn (p.generator.poll r).1) with generator := (p.generator.poll r).2 }

inductive Act where
  | readWorker (place : Nat) (worker : UInt64)
  | readClock (place : Nat) (now : UInt64)
  /-- It takes the lock and polls the generator. -/
  | enter (place : Nat)

/-- What an act makes of the polls; nothing, if the poll has not come there, or if the clock would
go back. -/
def act (p : Polls) : Act → Option Polls
  | .readWorker place worker =>
    match p.visits place with
    | .begun => some (p.put place (.named worker))
    | _ => none
  | .readClock place now =>
    match p.visits place with
    | .named worker => if p.clock ≤ now then some (p.date place now worker) else none
    | _ => none
  | .enter place =>
    match p.visits place with
    | .dated r turn => some (p.enter place r turn)
    | _ => none

/-- What any interleaving of polls leads to on a new locked generator. -/
inductive Reachable (c : IdSettings) : Polls → Prop where
  | start : Reachable c { generator := .fresh .locked c }
  | next {p q : Polls} {a : Act} : Reachable c p → p.act a = some q → Reachable c q

def Answered (p : Polls) (r : Reading) (turn : Nat) (answer : Outcome Poll) : Prop :=
  ∃ place, p.visits place = .answered r turn answer

/-- A poll that read the clock later, and past the drift that the settings allow, already has its
id. -/
structure Overtakes (p : Polls) (now : UInt64) (turn : Nat) (ahead : Reading) : Prop where
  issued : ∃ later id, turn < later ∧ p.Answered ahead later (.ok (.ready id))
  drift : now.toNat + p.generator.settings.maxClockDrift.cappedMillis < ahead.now.toNat

/-! ### What one step changes -/

variable {p q : Polls} {a : Act} {place : Nat} {r : Reading} {turn : Nat}

theorem put_visits_self (p : Polls) (place : Nat) (v : Visit) : (p.put place v).visits place = v :=
  Function.update_self ..

theorem put_visits_of_ne {i : Nat} (h : i ≠ place) (p : Polls) (v : Visit) :
    (p.put place v).visits i = p.visits i :=
  Function.update_of_ne h ..

theorem act_cases (h : p.act a = some q) :
    (∃ place worker, p.visits place = .begun ∧ q = p.put place (.named worker)) ∨
    (∃ place now worker, p.visits place = .named worker ∧ p.clock ≤ now ∧
      q = p.date place now worker) ∨
    ∃ place r turn, p.visits place = .dated r turn ∧ q = p.enter place r turn := by
  unfold act at h
  cases a with
  | readWorker place worker =>
    simp only at h
    split at h
    · next hv =>
      obtain rfl := Option.some.inj h
      exact .inl ⟨place, worker, hv, rfl⟩
    · exact nomatch h
  | readClock place now =>
    simp only at h
    split at h
    · next worker hv =>
      obtain ⟨hclock, hq⟩ := Option.ite_none_right_eq_some.mp h
      obtain rfl := Option.some.inj hq
      exact .inr (.inl ⟨place, now, worker, hv, hclock, rfl⟩)
    · exact nomatch h
  | enter place =>
    simp only at h
    split at h
    · next r turn hv =>
      obtain rfl := Option.some.inj h
      exact .inr (.inr ⟨place, r, turn, hv, rfl⟩)
    · exact nomatch h

/-- Before it is in the lock, a poll that goes on changes no answer. -/
theorem answered_put_iff {v : Visit} {answer : Outcome Poll}
    (hv : ∀ r turn answer, v ≠ .answered r turn answer)
    (hold : ∀ r turn answer, p.visits place ≠ .answered r turn answer) :
    (p.put place v).Answered r turn answer ↔ p.Answered r turn answer := by
  constructor
  · rintro ⟨i, hi⟩
    by_cases h : i = place
    · rw [h, put_visits_self] at hi
      exact absurd hi (hv _ _ _)
    · rw [put_visits_of_ne h] at hi
      exact ⟨i, hi⟩
  · rintro ⟨i, hi⟩
    have h : i ≠ place := by
      rintro rfl
      exact hold _ _ _ hi
    refine ⟨i, ?_⟩
    rw [put_visits_of_ne h]
    exact hi

/-- In the lock, a poll adds its answer to the others. -/
theorem answered_enter_iff {r' : Reading} {turn' : Nat} {answer : Outcome Poll}
    (hold : p.visits place = .dated r turn) :
    (p.enter place r turn).Answered r' turn' answer ↔
      p.Answered r' turn' answer ∨ r' = r ∧ turn' = turn ∧ answer = (p.generator.poll r).1 := by
  constructor
  · rintro ⟨i, hi⟩
    change (p.put place _).visits i = _ at hi
    by_cases h : i = place
    · rw [h, put_visits_self] at hi
      obtain ⟨rfl, rfl, rfl⟩ := Visit.answered.inj hi
      exact .inr ⟨rfl, rfl, rfl⟩
    · rw [put_visits_of_ne h] at hi
      exact .inl ⟨i, hi⟩
  · rintro (⟨i, hi⟩ | ⟨rfl, rfl, rfl⟩)
    · have h : i ≠ place := by
        rintro rfl
        exact nomatch hold.symm.trans hi
      exact ⟨i, (put_visits_of_ne h p _).trans hi⟩
    · exact ⟨place, put_visits_self p place _⟩

theorem stamp_put {v : Visit} (hv : v.stamp? = (p.visits place).stamp?) (i : Nat) :
    ((p.put place v).visits i).stamp? = (p.visits i).stamp? := by
  by_cases h : i = place
  · rw [h, put_visits_self, hv]
  · rw [put_visits_of_ne h]

/-! ### What every run keeps -/

/-- Polls that read the clock later have later readings. -/
structure InTurn (p : Polls) : Prop where
  within : ∀ i r turn, (p.visits i).stamp? = some (r, turn) → turn < p.turns ∧ r.now ≤ p.clock
  ordered : ∀ i j r turn r' turn', (p.visits i).stamp? = some (r, turn) →
    (p.visits j).stamp? = some (r', turn') → turn ≤ turn' → r.now ≤ r'.now

/-- The high-water mark is the latest reading of a poll that issued an id, and whoever is told that
the clock fell behind was overtaken by a poll at that mark. -/
structure Marked (p : Polls) : Prop where
  attained : ∀ last ∈ p.generator.history, ∃ r turn id,
    p.Answered r turn (.ok (.ready id)) ∧ last.highWater = r.now.toNat
  bounded : ∀ r turn id, p.Answered r turn (.ok (.ready id)) →
    ∃ last ∈ p.generator.history, r.now.toNat ≤ last.highWater
  blamed : ∀ r turn behind, p.Answered r turn (regression behind) → ∃ ahead,
    p.Overtakes r.now turn ahead ∧ behind = .ofMillis (ahead.now.toNat - r.now.toNat)

theorem InTurn.of_stamp (h : p.InTurn) (hstamp : ∀ i, (q.visits i).stamp? = (p.visits i).stamp?)
    (hturns : q.turns = p.turns) (hclock : q.clock = p.clock) : q.InTurn where
  within i r turn hi := by
    rw [hstamp] at hi
    rw [hturns, hclock]
    exact h.within i r turn hi
  ordered i j r turn r' turn' hi hj := by
    rw [hstamp] at hi hj
    exact h.ordered i j r turn r' turn' hi hj

/-- A new reading has the latest turn, and is no earlier than the others. -/
theorem InTurn.date (h : p.InTurn) {now worker : UInt64} (hclock : p.clock ≤ now) :
    (p.date place now worker).InTurn := by
  have hcases : ∀ i r turn, ((p.date place now worker).visits i).stamp? = some (r, turn) →
      r.now = now ∧ turn = p.turns ∨ (p.visits i).stamp? = some (r, turn) := by
    intro i r turn hi
    change ((p.put place _).visits i).stamp? = _ at hi
    by_cases hp : i = place
    · rw [hp, put_visits_self] at hi
      obtain ⟨rfl, rfl⟩ := Prod.mk.inj (Option.some.inj hi)
      exact .inl ⟨rfl, rfl⟩
    · rw [put_visits_of_ne hp] at hi
      exact .inr hi
  constructor
  · intro i r turn hi
    rcases hcases i r turn hi with ⟨hr, ht⟩ | hold
    · exact ⟨ht ▸ Nat.lt_succ_self _, hr ▸ UInt64.le_refl _⟩
    · obtain ⟨hlt, hle⟩ := h.within i r turn hold
      exact ⟨Nat.lt_succ_of_lt hlt, UInt64.le_trans hle hclock⟩
  · intro i j r turn r' turn' hi hj hle
    rcases hcases i r turn hi with ⟨hr, ht⟩ | hi
    · rcases hcases j r' turn' hj with ⟨hr', -⟩ | hj
      · rw [hr, hr']
        exact UInt64.le_refl _
      · have hlt := (h.within j r' turn' hj).1
        omega
    · rcases hcases j r' turn' hj with ⟨hr', -⟩ | hj
      · rw [hr']
        exact UInt64.le_trans (h.within i r turn hi).2 hclock
      · exact h.ordered i j r turn r' turn' hi hj hle

theorem Overtakes.mono {now : UInt64} {ahead : Reading} (h : p.Overtakes now turn ahead)
    (hanswered : ∀ r turn answer, p.Answered r turn answer → q.Answered r turn answer)
    (hsettings : q.generator.settings = p.generator.settings) : q.Overtakes now turn ahead where
  issued := by
    obtain ⟨later, id, hlater, hid⟩ := h.issued
    exact ⟨later, id, hlater, hanswered _ _ _ hid⟩
  drift := by
    rw [hsettings]
    exact h.drift

theorem Marked.of_answered (h : p.Marked)
    (hanswered : ∀ r turn answer, q.Answered r turn answer ↔ p.Answered r turn answer)
    (hgenerator : q.generator = p.generator) : q.Marked where
  attained last hlast := by
    rw [hgenerator] at hlast
    obtain ⟨r, turn, id, hid, hr⟩ := h.attained last hlast
    exact ⟨r, turn, id, (hanswered _ _ _).mpr hid, hr⟩
  bounded r turn id hid := by
    rw [hgenerator]
    exact h.bounded r turn id ((hanswered _ _ _).mp hid)
  blamed r turn behind hb := by
    obtain ⟨ahead, hahead, hbehind⟩ := h.blamed r turn behind ((hanswered _ _ _).mp hb)
    have hq := hahead.mono (fun _ _ _ => (hanswered _ _ _).mpr)
      (congrArg IdGenerator.settings hgenerator)
    exact ⟨ahead, hq, hbehind⟩

/-- A poll in the lock that is told that the clock fell behind was overtaken. -/
theorem Marked.exists_overtakes (h : p.Marked) (hturn : p.InTurn) {behind : Duration}
    (hold : p.visits place = .dated r turn) (hb : (p.generator.poll r).1 = regression behind) :
    ∃ ahead, p.Overtakes r.now turn ahead ∧
      behind = .ofMillis (ahead.now.toNat - r.now.toNat) := by
  obtain ⟨-, -, last, hlast, hfar, hbehind⟩ := IdGenerator.poll_eq_regression_iff.mp hb
  obtain ⟨ahead, later, id, ⟨i, hi⟩, hmark⟩ := h.attained last hlast
  have hword : last.highWater ≤ wordMax := hmark ▸ toNat_le_wordMax ahead.now
  have hdrift := (IdSettings.tooFarBehind_iff hword).mp hfar
  rw [hmark] at hdrift hbehind
  refine ⟨ahead, ⟨⟨later, id, ?_, i, hi⟩, hdrift⟩, hbehind⟩
  -- had it read the clock before, its reading would not be ahead
  by_contra hle
  have hstamp : (p.visits i).stamp? = some (ahead, later) := by rw [hi]; rfl
  have hstamp' : (p.visits place).stamp? = some (r, turn) := by rw [hold]; rfl
  have hearlier := hturn.ordered i place _ _ _ _ hstamp hstamp' (Nat.not_lt.mp hle)
  have hnat := UInt64.le_iff_toNat_le.mp hearlier
  omega

theorem Marked.enter (h : p.Marked) (hturn : p.InTurn) (hold : p.visits place = .dated r turn) :
    (p.enter place r turn).Marked := by
  have hkept : ∀ r' turn' answer, p.Answered r' turn' answer →
      (p.enter place r turn).Answered r' turn' answer := by
    intro r' turn' answer hr
    exact (answered_enter_iff hold).mpr (.inl hr)
  have hself : (p.enter place r turn).Answered r turn (p.generator.poll r).1 :=
    (answered_enter_iff hold).mpr (.inr ⟨rfl, rfl, rfl⟩)
  have hgenerator : (p.enter place r turn).generator = (p.generator.poll r).2 := rfl
  have hsettings := p.generator.settings_poll r
  have hblamed : ∀ r' turn' behind, (p.enter place r turn).Answered r' turn' (regression behind) →
      ∃ ahead, (p.enter place r turn).Overtakes r'.now turn' ahead ∧
        behind = .ofMillis (ahead.now.toNat - r'.now.toNat) := by
    intro r' turn' behind hb
    rcases (answered_enter_iff hold).mp hb with hbefore | ⟨rfl, rfl, hnow⟩
    · obtain ⟨ahead, hahead, hbehind⟩ := h.blamed r' turn' behind hbefore
      exact ⟨ahead, hahead.mono hkept hsettings, hbehind⟩
    · obtain ⟨ahead, hahead, hbehind⟩ := h.exists_overtakes hturn hold hnow.symm
      exact ⟨ahead, hahead.mono hkept hsettings, hbehind⟩
  rcases p.generator.highWater_of_poll r with ⟨hnone, hhist⟩ | ⟨id, issued, hid, hhist, hmark⟩
  · rw [← hgenerator] at hhist
    refine ⟨?_, ?_, hblamed⟩
    · intro last hlast
      rw [hhist] at hlast
      obtain ⟨r', turn', id, hid, hr'⟩ := h.attained last hlast
      exact ⟨r', turn', id, hkept _ _ _ hid, hr'⟩
    · intro r' turn' id hid
      rw [hhist]
      rcases (answered_enter_iff hold).mp hid with hid | ⟨-, -, hid⟩
      · exact h.bounded r' turn' id hid
      · rw [← hid] at hnone
        exact nomatch hnone
  · rw [← hgenerator] at hhist
    refine ⟨?_, ?_, hblamed⟩
    · intro last hlast
      rw [hhist] at hlast
      obtain rfl := Option.some.inj hlast
      rw [hid] at hself
      rcases Nat.le_total (p.generator.history.elim 0 Issued.highWater) r.now.toNat with hle | hle
      · exact ⟨r, turn, id, hself, hmark.trans (Nat.max_eq_right hle)⟩
      · have hup : issued.highWater = p.generator.history.elim 0 Issued.highWater :=
          hmark.trans (Nat.max_eq_left hle)
        cases hp : p.generator.history with
        | none =>
          rw [hp] at hle hup
          exact ⟨r, turn, id, hself, hup.trans (Nat.le_zero.mp hle).symm⟩
        | some last =>
          obtain ⟨r', turn', id', hid', hr'⟩ := h.attained last hp
          rw [hp] at hup
          exact ⟨r', turn', id', hkept _ _ _ hid', hup.trans hr'⟩
    · intro r' turn' id' hid'
      refine ⟨issued, hhist, ?_⟩
      rw [hmark]
      rcases (answered_enter_iff hold).mp hid' with hid' | ⟨rfl, -, -⟩
      · obtain ⟨last, hlast, hle⟩ := h.bounded r' turn' id' hid'
        rw [hlast]
        exact Nat.le_trans hle (Nat.le_max_left _ _)
      · exact Nat.le_max_right _ _

/-- What every run keeps. -/
structure Kept (c : IdSettings) (p : Polls) : Prop where
  settings : p.generator.settings = c
  inTurn : p.InTurn
  marked : p.Marked

variable {c : IdSettings}

theorem kept_start : Kept c { generator := .fresh .locked c } where
  settings := rfl
  inTurn := ⟨nofun, nofun⟩
  marked := ⟨nofun, nofun, nofun⟩

theorem Kept.act (h : Kept c p) (ha : p.act a = some q) : Kept c q := by
  rcases act_cases ha with ⟨place, worker, hv, rfl⟩ | ⟨place, now, worker, hv, hclock, rfl⟩ |
    ⟨place, r, turn, hv, rfl⟩
  · have hstamp : ∀ i, ((p.put place (.named worker)).visits i).stamp? = (p.visits i).stamp? :=
      stamp_put (by rw [hv]; rfl)
    refine ⟨h.settings, h.inTurn.of_stamp hstamp rfl rfl, h.marked.of_answered ?_ rfl⟩
    intro r turn answer
    exact answered_put_iff nofun (by rw [hv]; exact nofun)
  · refine ⟨h.settings, h.inTurn.date hclock, h.marked.of_answered ?_ rfl⟩
    intro r turn answer
    exact answered_put_iff nofun (by rw [hv]; exact nofun)
  · refine ⟨?_, h.inTurn.of_stamp ?_ rfl rfl, h.marked.enter h.inTurn hv⟩
    · exact (p.generator.settings_poll r).trans h.settings
    · exact stamp_put (by rw [hv]; rfl)

theorem Reachable.kept (h : Reachable c p) : Kept c p := by
  induction h with
  | start => exact kept_start
  | next hp ha ih => exact ih.act ha

/-- A poll that is overtaken and gets as far as the mark is told that the clock fell behind. -/
theorem Kept.regression_of_overtakes (h : Kept c p) {tick : Nat} {ahead : Reading}
    (hold : p.visits place = .dated r turn) (htick : c.layout.tickOf r.now = .ok tick)
    (hlock : p.generator.poisoned = false) (hover : p.Overtakes r.now turn ahead) :
    ∃ q behind, p.act (.enter place) = some q ∧
      q.visits place = .answered r turn (regression behind) := by
  obtain ⟨later, id, -, hid⟩ := hover.issued
  obtain ⟨last, hlast, hle⟩ := h.marked.bounded ahead later id hid
  obtain ⟨ahead', later', id', -, hmark⟩ := h.marked.attained last hlast
  have hword : last.highWater ≤ wordMax := hmark ▸ toNat_le_wordMax ahead'.now
  have hfar : p.generator.settings.tooFarBehind last r.now = true :=
    (IdSettings.tooFarBehind_iff hword).mpr (Nat.lt_of_lt_of_le hover.drift hle)
  have hpoll : (p.generator.poll r).1 =
      regression (.ofMillis (last.highWater - r.now.toNat)) := by
    refine IdGenerator.poll_eq_regression_iff.mpr ⟨⟨tick, ?_⟩, hlock, last, hlast, hfar, rfl⟩
    rw [h.settings]
    exact htick
  have hact : p.act (.enter place) = some (p.enter place r turn) := by simp only [Polls.act, hold]
  have hanswer : (p.enter place r turn).visits place = .answered r turn (p.generator.poll r).1 :=
    put_visits_self p place _
  rw [hpoll] at hanswer
  exact ⟨_, _, hact, hanswer⟩

/-- Over a clock that never goes back, a poll is told that it fell behind only if it was overtaken,
by just as much as it is told; and whenever a poll is overtaken and gets as far as the mark, it is
told so. -/
theorem regression_exactly (c : IdSettings) :
    (∀ p, Reachable c p → ∀ r turn behind, p.Answered r turn (regression behind) →
      ∃ ahead, p.Overtakes r.now turn ahead ∧
        behind = .ofMillis (ahead.now.toNat - r.now.toNat)) ∧
    ∀ p, Reachable c p → ∀ place r turn tick ahead, p.visits place = .dated r turn →
      c.layout.tickOf r.now = .ok tick → p.generator.poisoned = false →
      p.Overtakes r.now turn ahead → ∃ q behind, p.act (.enter place) = some q ∧
        q.visits place = .answered r turn (regression behind) := by
  constructor
  · intro p hp r turn behind hb
    exact hp.kept.marked.blamed r turn behind hb
  · intro p hp place r turn tick ahead hold htick hlock hover
    exact hp.kept.regression_of_overtakes hold htick hlock hover

theorem Reachable.foldlM {as : List Act} (hp : Reachable c p)
    (h : as.foldlM Polls.act p = some q) : Reachable c q := by
  induction as generalizing p with
  | nil =>
    obtain rfl := Option.some.inj h
    exact hp
  | cons a as ih =>
    rw [List.foldlM_cons] at h
    obtain ⟨p', hact, hrest⟩ := Option.bind_eq_some_iff.mp h
    exact ih (hp.next hact) hrest

/-- The first poll reads the clock and is held up; the second reads it 20 ms later and has its id
before the first takes the lock. -/
def heldUp : List Act :=
  [.readWorker 0 1, .readClock 0 1735689601000, .readWorker 1 1, .readClock 1 1735689601020,
    .enter 1]

theorem regression_exactly_of_heldUp :
    ∃ p q ahead behind, Reachable (.ofLayout .layout64) p ∧ p.act (.enter 0) = some q ∧
      q.visits 0 = .answered ⟨1735689601000, 1⟩ 0 (regression behind) ∧
      q.Overtakes 1735689601000 0 ahead ∧
      behind = .ofMillis (ahead.now.toNat - 1735689601000) := by
  obtain ⟨p, hreplay, hold, hlock, hid, hset⟩ : ∃ p,
      heldUp.foldlM act { generator := .fresh .locked (.ofLayout .layout64) } = some p ∧
      p.visits 0 = .dated ⟨1735689601000, 1⟩ 0 ∧ p.generator.poisoned = false ∧
      p.visits 1 = .answered ⟨1735689601020, 1⟩ 1 (.ok (.ready ⟨4278194176⟩)) ∧
      p.generator.settings = .ofLayout .layout64 := ⟨_, rfl, rfl, rfl, rfl, rfl⟩
  have hp := Reachable.start.foldlM hreplay
  have htick : (IdSettings.ofLayout .layout64).layout.tickOf 1735689601000 = .ok 1000 := rfl
  have hover : p.Overtakes 1735689601000 0 ⟨1735689601020, 1⟩ :=
    ⟨⟨1, _, by decide, 1, hid⟩, by rw [hset]; decide⟩
  obtain ⟨q, behind, hact, hq⟩ :=
    (regression_exactly (.ofLayout .layout64)).2 p hp 0 _ _ _ _ hold htick hlock hover
  obtain ⟨ahead, hahead, hbehind⟩ :=
    (regression_exactly (.ofLayout .layout64)).1 q (hp.next hact) _ _ _ ⟨0, hq⟩
  exact ⟨p, q, ahead, behind, hp, hact, hq, hahead, hbehind⟩

/-- The clock never went back, and the poll that was held up is told that it did, by 20 ms. -/
theorem regression_of_heldUp :
    ∃ p, Reachable (.ofLayout .layout64) p ∧
      p.Answered ⟨1735689601000, 1⟩ 0 (regression (.ofMillis 20)) := by
  obtain ⟨p, hreplay, hanswer⟩ : ∃ p,
      (heldUp ++ [Act.enter 0]).foldlM act { generator := .fresh .locked (.ofLayout .layout64) } =
        some p ∧ p.visits 0 = .answered ⟨1735689601000, 1⟩ 0 (regression (.ofMillis 20)) :=
    ⟨_, rfl, rfl⟩
  exact ⟨p, Reachable.start.foldlM hreplay, 0, hanswer⟩

end Polls
end StoreClient

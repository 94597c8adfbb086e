import StoreClient.Proofs.Ids.Rising
import StoreClient.Proofs.Ids.Ticks

/-! # Waits that end on time

A poll that has to wait names the time until a tick begins: the one after the last issued tick, or
the last issued tick itself when the clock fell behind it (`IdSettings.awaited`).  What a generator
remembers lies in the tick of its high-water mark (`Issued.Consistent`), so the clock cannot be
blamed at that moment, and nothing can be issued before (`IdGenerator.pending_exact`).  One wait is
in vain: that for a last tick whose sequence is used up. -/

namespace StoreClient

/-- What is remembered of an id fits the layout, and lies in the tick of the high-water mark. -/
structure Issued.Consistent (i : Issued) (l : IdLayout) : Prop where
  fits : l.Fits i.parts
  started : l.tickStart i.tick ≤ i.highWater
  ahead : i.highWater < l.tickStart (i.tick + 1)
  word : i.highWater ≤ wordMax

namespace IdSettings

variable {c : IdSettings} {h h' : Option Issued} {last : Issued} {r : Reading} {tick : Nat}

/-- The tick for which a poll waits after the given last id. -/
def awaited (last : Issued) (r : Reading) (tick : Nat) : Nat :=
  if r.worker.toNat = last.worker ∧ tick < last.tick then last.tick else last.tick + 1

/-- The last tick has no number left for the worker. -/
def exhausted (c : IdSettings) (last : Issued) (r : Reading) : Prop :=
  r.worker.toNat = last.worker ∧ last.sequence = c.layout.max .sequence

/-! ### One poll -/

theorem issue_ne_pending {s hw : Nat} {d : Duration} :
    c.issue tick s r hw ≠ .ok (.pending d, h') := by
  intro e
  obtain ⟨id, i, ha, -⟩ := issue_eq_ok e
  exact nomatch ha

theorem defer_ne_ready {t : Nat} {id : SnowflakeId} : c.defer t r h ≠ .ok (.ready id, h') := by
  intro e
  obtain ⟨⟨d, ha⟩, -⟩ := defer_eq_ok e
  exact nomatch ha

theorem defer_eq_pending_iff {t : Nat} {d : Duration} :
    c.defer t r h = .ok (.pending d, h') ↔ c.layout.waitFor t r.now = .ok d ∧ h' = h := by
  unfold defer
  split
  · next d' hd => simp [hd, eq_comm]
  · next e he => simp [he]

theorem exists_issue {s : Nat} (hw : Nat) (hfit : c.layout.Fits ⟨tick, r.worker.toNat, s⟩) :
    ∃ id i, c.issue tick s r hw = .ok (.ready id, some i) := by
  have he := IdLayout.encode_eq_ok_iff.mpr ⟨hfit, rfl⟩
  unfold issue
  rw [he]
  exact ⟨_, _, rfl⟩

/-- A poll waits when the clock is no further than the last tick, for the tick that it awaits. -/
theorem advance_eq_pending {d : Duration}
    (e : c.advance (some last) r tick = .ok (.pending d, h')) :
    c.tooFarBehind last r.now = false ∧ tick ≤ last.tick ∧
      c.layout.waitFor (awaited last r tick) r.now = .ok d ∧
      (r.worker.toNat = last.worker → tick = last.tick →
        c.layout.max .sequence ≤ last.sequence) := by
  unfold advance at e
  simp only at e
  split at e
  · exact nomatch e
  next hb =>
  refine ⟨Bool.eq_false_iff.mpr hb, ?_⟩
  split at e
  · exact absurd e issue_ne_pending
  next hlt =>
  have hle := Nat.not_lt.mp hlt
  split at e
  · next hw =>
    have haw : awaited last r tick = last.tick + 1 := if_neg fun h => hw h.1
    rw [haw]
    exact ⟨hle, (defer_eq_pending_iff.mp e).1, fun h => absurd h hw⟩
  next hw =>
  have hw := not_not.mp hw
  split at e
  · next hbefore =>
    have haw : awaited last r tick = last.tick := if_pos ⟨hw, hbefore⟩
    rw [haw]
    exact ⟨hle, (defer_eq_pending_iff.mp e).1, fun _ h => absurd h (Nat.ne_of_lt hbefore)⟩
  next hge =>
  split at e
  · exact absurd e issue_ne_pending
  next hseq =>
  have haw : awaited last r tick = last.tick + 1 := if_neg fun h => hge h.2
  rw [haw]
  exact ⟨hle, (defer_eq_pending_iff.mp e).1, fun _ _ => Nat.not_lt.mp hseq⟩

/-- An id is issued in a later tick, or as the next one of the last tick and its worker. -/
theorem advance_eq_ready {id : SnowflakeId}
    (e : c.advance (some last) r tick = .ok (.ready id, h')) :
    last.tick < tick ∨
      r.worker.toNat = last.worker ∧ tick = last.tick ∧ last.sequence < c.layout.max .sequence := by
  unfold advance at e
  simp only at e
  split at e
  · exact nomatch e
  split at e
  · next hlt => exact .inl hlt
  next hle =>
  split at e
  · exact absurd e defer_ne_ready
  next hw =>
  split at e
  · exact absurd e defer_ne_ready
  next hge =>
  split at e
  · next hseq =>
      have htick := Nat.le_antisymm (Nat.not_lt.mp hle) (Nat.not_lt.mp hge)
      exact .inr ⟨not_not.mp hw, htick, hseq⟩
  · exact absurd e defer_ne_ready

theorem advance_of_later (hb : c.tooFarBehind last r.now = false) (hlt : last.tick < tick)
    (hfit : c.layout.Fits ⟨tick, r.worker.toNat, 0⟩) :
    ∃ id i, c.advance (some last) r tick = .ok (.ready id, some i) := by
  unfold advance
  simp only [hb, Bool.false_eq_true, if_false, hlt, if_true]
  exact exists_issue _ hfit

theorem advance_of_same (hb : c.tooFarBehind last r.now = false)
    (hw : r.worker.toNat = last.worker) :
    c.advance (some last) r last.tick =
      if last.sequence < c.layout.max .sequence then
        c.issue last.tick (last.sequence + 1) r last.highWater
      else c.defer (last.tick + 1) r (some last) := by
  unfold advance
  simp only [hb, Bool.false_eq_true, if_false, Nat.lt_irrefl, hw, ne_eq, not_true_eq_false]

theorem tooFarBehind_mono {now again : UInt64} (hle : now.toNat ≤ again.toNat)
    (hb : c.tooFarBehind last now = false) : c.tooFarBehind last again = false := by
  unfold tooFarBehind saturatingAdd at *
  rw [decide_eq_false_iff_not] at *
  omega

theorem consistent_of_advance {id : SnowflakeId} {i : Issued}
    (e : c.advance h r tick = .ok (.ready id, some i)) (htick : c.layout.tickOf r.now = .ok tick)
    (hh : ∀ last ∈ h, last.Consistent c.layout) : i.Consistent c.layout := by
  obtain ⟨hstart, hnext, -⟩ := IdLayout.tickOf_eq_ok_iff.mp htick
  have hword : r.now.toNat ≤ wordMax := Nat.le_of_lt_succ r.now.toNat_lt
  -- the mark that the id leaves is a reading of its own tick, or an earlier one
  have hissue : ∀ s hw, hw < c.layout.tickStart (tick + 1) → hw ≤ wordMax →
      c.issue tick s r hw = .ok (.ready id, some i) → i.Consistent c.layout := by
    intro s hw hlt hle e
    unfold issue at e
    split at e
    · next id' he =>
      obtain ⟨-, hi⟩ := Prod.mk.inj (Except.ok.inj e)
      obtain rfl := Option.some.inj hi
      exact ⟨(IdLayout.encode_eq_ok_iff.mp he).1, Nat.le_trans hstart (Nat.le_max_right _ _),
        Nat.max_lt.mpr ⟨hlt, hnext⟩, Nat.max_le.mpr ⟨hle, hword⟩⟩
    · exact nomatch e
  unfold advance at e
  split at e
  · exact hissue _ _ (Nat.lt_of_le_of_lt (Nat.zero_le _) hnext) (Nat.zero_le _) e
  next last =>
  have hlast := hh last rfl
  split at e
  · exact nomatch e
  split at e
  · next hlt =>
    have hmark := c.layout.tickStart_mono (Nat.le_succ_of_le (Nat.succ_le_of_lt hlt))
    exact hissue _ _ (Nat.lt_of_lt_of_le hlast.ahead hmark) hlast.word e
  next hle =>
  split at e
  · exact absurd e defer_ne_ready
  split at e
  · exact absurd e defer_ne_ready
  next hge =>
  split at e
  · obtain rfl : tick = last.tick := Nat.le_antisymm (Nat.not_lt.mp hle) (Nat.not_lt.mp hge)
    exact hissue _ _ hlast.ahead hlast.word e
  · exact absurd e defer_ne_ready

end IdSettings

namespace IdGenerator

variable {g : IdGenerator} {r : Reading}

/-! ### Every run -/

theorem consistent_poll (g : IdGenerator) (r : Reading)
    (hg : ∀ last ∈ g.history, last.Consistent g.settings.layout) :
    ∀ last ∈ (g.poll r).2.history, last.Consistent g.settings.layout := by
  unfold poll
  split
  · exact hg
  next tick htick =>
  split
  · exact hg
  split
  · next answer history e =>
    rcases IdSettings.advance_eq_ok e with ⟨-, rfl⟩ | ⟨id, i, rfl, rfl, -⟩
    · exact hg
    · rintro _ ⟨⟩
      exact IdSettings.consistent_of_advance e htick hg
  · exact hg
  · exact hg

theorem consistent_pollAll (g : IdGenerator) (rs : List Reading)
    (hg : ∀ last ∈ g.history, last.Consistent g.settings.layout) :
    (g.pollAll rs).2.settings = g.settings ∧
      ∀ last ∈ (g.pollAll rs).2.history, last.Consistent g.settings.layout := by
  induction rs generalizing g with
  | nil => exact ⟨rfl, hg⟩
  | cons r rs ih =>
    have hset := g.settings_poll r
    have hnext := g.consistent_poll r hg
    rw [← hset] at hnext
    have h := ih (g.poll r).2 hnext
    rw [hset] at h
    exact h

/-- A run of polls leads from a new generator to this one. -/
def Reached (c : IdSettings) (g : IdGenerator) : Prop :=
  ∃ sharing rs, ((fresh sharing c).pollAll rs).2 = g

theorem Reached.consistent {c : IdSettings} (h : Reached c g) :
    g.settings = c ∧ ∀ last ∈ g.history, last.Consistent c.layout := by
  obtain ⟨sharing, rs, rfl⟩ := h
  exact consistent_pollAll (fresh sharing c) rs nofun

/-! ### Exact waits -/

theorem poll_of_tickOf {tick : Nat} (hlock : g.poisoned = false)
    (htick : g.settings.layout.tickOf r.now = .ok tick) :
    (g.poll r).1 = (g.settings.advance g.history r tick).map Prod.fst := by
  unfold poll
  simp only [htick, hlock, Bool.false_eq_true, if_false]
  split
  · next e => rw [e]; rfl
  · next e => rw [e]; rfl
  · next e => rw [e]; rfl

theorem exists_tickOf_of_poll {a : Poll} (e : (g.poll r).1 = .ok a) :
    g.poisoned = false ∧ ∃ tick h', g.settings.layout.tickOf r.now = .ok tick ∧
      g.settings.advance g.history r tick = .ok (a, h') := by
  cases htick : g.settings.layout.tickOf r.now with
  | error cause =>
    unfold poll at e
    simp only [htick] at e
    exact nomatch e
  | ok tick =>
    cases hlock : g.poisoned with
    | true =>
      unfold poll at e
      simp only [htick, hlock, if_true] at e
      exact nomatch e
    | false =>
      rw [poll_of_tickOf hlock htick] at e
      cases hadv : g.settings.advance g.history r tick with
      | error cause =>
        rw [hadv] at e
        exact nomatch e
      | ok p =>
        rw [hadv] at e
        obtain rfl := Except.ok.inj e
        exact ⟨rfl, tick, p.2, rfl, hadv⟩

/-- What a poll that waits has seen. -/
structure Waits (g : IdGenerator) (r : Reading) (last : Issued) (tick : Nat) (d : Duration) :
    Prop where
  lock : g.poisoned = false
  history : g.history = some last
  tickOf : g.settings.layout.tickOf r.now = .ok tick
  near : g.settings.tooFarBehind last r.now = false
  le : tick ≤ last.tick
  wait : g.settings.layout.waitFor (IdSettings.awaited last r tick) r.now = .ok d
  full : r.worker.toNat = last.worker → tick = last.tick →
    g.settings.layout.max .sequence ≤ last.sequence

variable {last : Issued} {tick : Nat} {d : Duration}

theorem exists_waits (e : (g.poll r).1 = .ok (.pending d)) :
    ∃ last tick, g.Waits r last tick d := by
  obtain ⟨hlock, tick, h', htick, hadv⟩ := exists_tickOf_of_poll e
  cases hh : g.history with
  | none =>
    rw [hh] at hadv
    exact absurd hadv IdSettings.issue_ne_pending
  | some last =>
    rw [hh] at hadv
    obtain ⟨hnear, hle, hwait, hfull⟩ := IdSettings.advance_eq_pending hadv
    exact ⟨last, tick, hlock, hh, htick, hnear, hle, hwait, hfull⟩

namespace Waits

def due (g : IdGenerator) (r : Reading) (last : Issued) (tick : Nat) : Nat :=
  g.settings.layout.tickStart (IdSettings.awaited last r tick)

theorem lt_awaited (h : g.Waits r last tick d) : tick < IdSettings.awaited last r tick := by
  have hle := h.le
  unfold IdSettings.awaited
  split
  · next hb => exact hb.2
  · exact Nat.lt_succ_of_le hle

/-- The awaited tick has not begun, and the wait ends when it does. -/
theorem wait_eq (h : g.Waits r last tick d) :
    r.now.toNat < due g r last tick ∧ due g r last tick ≤ wordMax ∧
      d = .ofMillis (due g r last tick - r.now.toNat) := by
  have hnext := (IdLayout.tickOf_eq_ok_iff.mp h.tickOf).2.1
  have hlt : r.now.toNat < due g r last tick :=
    Nat.lt_of_lt_of_le hnext (g.settings.layout.tickStart_mono (Nat.succ_le_of_lt h.lt_awaited))
  exact ⟨hlt, (IdLayout.waitFor_eq_ok_iff hlt).mp h.wait⟩

/-- Until then no poll of the worker issues an id. -/
theorem not_ready (h : g.Waits r last tick d) {now : UInt64} (hnow : now.toNat < due g r last tick)
    (id : SnowflakeId) : (g.poll ⟨now, r.worker⟩).1 ≠ .ok (.ready id) := by
  intro e
  obtain ⟨-, tick', h', htick', hadv⟩ := exists_tickOf_of_poll e
  rw [h.history] at hadv
  have hlt := IdLayout.lt_of_tickOf htick' hnow
  have hle := h.le
  have hfull := h.full
  unfold IdSettings.awaited at hlt
  rcases IdSettings.advance_eq_ready hadv with hlater | ⟨hw, heq, hseq⟩
  · split at hlt <;> omega
  · split at hlt
    · omega
    · next hnot =>
      have hsame : tick = last.tick := by
        by_contra hne
        exact hnot ⟨hw, Nat.lt_of_le_of_ne hle hne⟩
      exact absurd hseq (Nat.not_lt.mpr (hfull hw hsame))

/-- When the awaited tick begins the clock is not blamed. -/
theorem near_due (h : g.Waits r last tick d) {again : UInt64}
    (hagain : again.toNat = due g r last tick) :
    g.settings.tooFarBehind last again = false := by
  refine IdSettings.tooFarBehind_mono ?_ h.near
  rw [hagain]
  exact Nat.le_of_lt h.wait_eq.1

end Waits

/-- The reading has a tick before the last one, which has no number left for its worker. -/
structure Spent (g : IdGenerator) (r : Reading) (last : Issued) : Prop where
  history : g.history = some last
  before : ∃ tick, g.settings.layout.tickOf r.now = .ok tick ∧ tick < last.tick
  exhausted : g.settings.exhausted last r

/-- A wait for the last tick while it has no number left is followed by one for the next tick. -/
theorem Waits.again_of_spent (h : g.Waits r last tick d) (hs : g.Spent r last) {again : UInt64}
    (hagain : again.toNat = due g r last tick)
    (hlast : last.Consistent g.settings.layout) :
    (g.poll ⟨again, r.worker⟩).1 =
      if g.settings.layout.tickStart (last.tick + 1) ≤ wordMax then
        .ok (.pending (.ofMillis (g.settings.layout.tickStart (last.tick + 1) - again.toNat)))
      else .error (.panic .arithmetic) := by
  obtain ⟨tick', htick', hbefore⟩ := hs.before
  obtain ⟨hw, hseq⟩ := hs.exhausted
  obtain rfl : tick = tick' := Except.ok.inj (h.tickOf.symm.trans htick')
  have hdue : again.toNat = g.settings.layout.tickStart last.tick := by
    rw [hagain, due, IdSettings.awaited, if_pos ⟨hw, hbefore⟩]
  have htick := IdLayout.tickOf_of_start hdue hlast.fits.timestamp
  have hadv : g.settings.advance g.history ⟨again, r.worker⟩ last.tick =
      g.settings.defer (last.tick + 1) ⟨again, r.worker⟩ g.history := by
    rw [h.history]
    have hsame := IdSettings.advance_of_same (r := ⟨again, r.worker⟩) (h.near_due hagain) hw
    rwa [if_neg (Nat.not_lt.mpr (Nat.le_of_eq hseq.symm))] at hsame
  rw [poll_of_tickOf (r := ⟨again, r.worker⟩) h.lock htick, hadv]
  have hlt : again.toNat < g.settings.layout.tickStart (last.tick + 1) := by
    rw [hdue]
    exact g.settings.layout.tickStart_lt_succ _
  by_cases hword : g.settings.layout.tickStart (last.tick + 1) ≤ wordMax
  · rw [if_pos hword, IdSettings.defer, (IdLayout.waitFor_eq_ok_iff hlt).mpr ⟨hword, rfl⟩]
    rfl
  · rw [if_neg hword, IdSettings.defer, IdLayout.waitFor_of_wordMax_lt (Nat.not_le.mp hword)]
    rfl

/-- Otherwise an id is there when the awaited tick begins. -/
theorem Waits.ready (h : g.Waits r last tick d) (hs : ¬ g.Spent r last) {again : UInt64}
    (hagain : again.toNat = due g r last tick)
    (hlast : last.Consistent g.settings.layout)
    (hworker : r.worker.toNat ≤ g.settings.layout.max .workerId) {next : Nat}
    (hnext : g.settings.layout.tickOf again = .ok next) :
    ∃ id, (g.poll ⟨again, r.worker⟩).1 = .ok (.ready id) := by
  have hmax := (IdLayout.tickOf_eq_ok_iff.mp hnext).2.2
  obtain rfl := IdLayout.eq_of_tickOf_start hagain hnext
  have hnear := h.near_due hagain
  obtain ⟨id, i, hadv⟩ : ∃ id i, g.settings.advance (some last) ⟨again, r.worker⟩
      (IdSettings.awaited last r tick) = .ok (.ready id, some i) := by
    unfold IdSettings.awaited at hmax ⊢
    split
    · next hb =>
      have hne : last.sequence ≠ g.settings.layout.max .sequence := fun hseq =>
        hs ⟨h.history, ⟨tick, h.tickOf, hb.2⟩, hb.1, hseq⟩
      have hseq : last.sequence < g.settings.layout.max .sequence :=
        Nat.lt_of_le_of_ne hlast.fits.sequence hne
      rw [IdSettings.advance_of_same (r := ⟨again, r.worker⟩) hnear hb.1, if_pos hseq]
      exact IdSettings.exists_issue _ ⟨hlast.fits.timestamp, hworker, hseq⟩
    · next hnot =>
      rw [if_neg hnot] at hmax
      exact IdSettings.advance_of_later hnear (Nat.lt_succ_self _) ⟨hmax, hworker, Nat.zero_le _⟩
  refine ⟨id, ?_⟩
  rw [poll_of_tickOf h.lock hnext, h.history, hadv]
  rfl

/-- The wait that a poll names is exact, for every run of polls before it: whole milliseconds and
at least one, up to the first reading at which the worker can have an id.  It has one then, if its
fields fit, unless the clock fell behind a tick whose sequence is used up: then the next wait leads
to the tick after that one. -/
theorem pending_exact {c : IdSettings} {g : IdGenerator} {r : Reading} {d : Duration}
    (hg : Reached c g) (e : (g.poll r).1 = .ok (.pending d)) :
    ∃ (m : Nat) (again : UInt64), d = .ofMillis m ∧ 1 ≤ m ∧ again.toNat = r.now.toNat + m ∧
      (∀ now id, now < again → (g.poll ⟨now, r.worker⟩).1 ≠ .ok (.ready id)) ∧
      (∀ last, g.Spent r last → (g.poll ⟨again, r.worker⟩).1 =
        if c.layout.tickStart (last.tick + 1) ≤ wordMax then
          .ok (.pending (.ofMillis (c.layout.tickStart (last.tick + 1) - again.toNat)))
        else .error (.panic .arithmetic)) ∧
      ((∀ last, ¬ g.Spent r last) → r.worker.toNat ≤ c.layout.max .workerId →
        ∀ tick, c.layout.tickOf again = .ok tick →
          ∃ id, (g.poll ⟨again, r.worker⟩).1 = .ok (.ready id)) := by
  obtain ⟨hset, hcons⟩ := hg.consistent
  obtain ⟨last, tick, hwaits⟩ := exists_waits e
  obtain ⟨hlt, hword, hd⟩ := hwaits.wait_eq
  have hlast := hcons last hwaits.history
  rw [← hset] at hlast ⊢
  have hagain : (Waits.due g r last tick).toUInt64.toNat = Waits.due g r last tick :=
    UInt64.toNat_ofNat_of_lt' (Nat.lt_succ_of_le hword)
  refine ⟨Waits.due g r last tick - r.now.toNat, (Waits.due g r last tick).toUInt64, hd,
    Nat.sub_pos_of_lt hlt, by omega, ?_, ?_, ?_⟩
  · intro now id hnow
    refine hwaits.not_ready ?_ id
    rw [← hagain]
    exact UInt64.lt_iff_toNat_lt.mp hnow
  · intro last' hs
    obtain rfl := Option.some.inj (hwaits.history.symm.trans hs.history)
    exact hwaits.again_of_spent hs hagain hlast
  · intro hs hworker next hnext
    exact hwaits.ready (hs last) hagain hlast hworker hnext

/-- Ticks of a second with two ids each, over a clock that may fall back by two seconds. -/
def cramped : IdSettings where
  layout := ⟨40, 6, 1, .seconds, IdLayout.customEpoch, Nat.succ_pos 39, Nat.succ_pos 5,
    Nat.succ_pos 0, Nat.le_add_right 47 16⟩
  maxClockDrift := .ofSeconds 2

/-- After both ids of the sixth tick the clock is back in the fifth: the worker is told to wait for
the sixth tick, and there for the seventh; another worker is told at once to wait for that, and has
its id then. -/
theorem pending_exact_of_cramped :
    ∃ g last, Reached cramped g ∧ g.Spent ⟨1735689604995, 1⟩ last ∧
      (∀ last, ¬ g.Spent ⟨1735689604995, 2⟩ last) ∧
      (g.poll ⟨1735689604995, 1⟩).1 = .ok (.pending (.ofMillis 5)) ∧
      (g.poll ⟨1735689604995, 2⟩).1 = .ok (.pending (.ofMillis 1005)) ∧
      (g.poll ⟨1735689605000, 1⟩).1 = .ok (.pending (.ofMillis 1000)) ∧
      ∃ id, (g.poll ⟨1735689606000, 2⟩).1 = .ok (.ready id) := by
  obtain ⟨g, hg⟩ : ∃ g, ((fresh .locked cramped).pollAll
    [⟨1735689605200, 1⟩, ⟨1735689605300, 1⟩]).2 = g := ⟨_, rfl⟩
  have hreached : Reached cramped g := ⟨_, _, hg⟩
  have hhistory : g.history = some ⟨5, 1, 1, 1735689605300⟩ := by rw [← hg]; decide +kernel
  have hset : g.settings = cramped := hreached.consistent.1
  have hspent : g.Spent ⟨1735689604995, 1⟩ ⟨5, 1, 1, 1735689605300⟩ := by
    refine ⟨hhistory, ⟨4, ?_, by decide⟩, ?_⟩
    · rw [hset]
      rfl
    · rw [hset]
      exact ⟨rfl, rfl⟩
  have hother : ∀ last, ¬ g.Spent ⟨1735689604995, 2⟩ last := by
    intro last hs
    obtain rfl := Option.some.inj (hhistory.symm.trans hs.history)
    exact absurd hs.exhausted.1 (by decide)
  have e₁ : (g.poll ⟨1735689604995, 1⟩).1 = .ok (.pending (.ofMillis 5)) := by
    rw [← hg]
    decide +kernel
  have e₂ : (g.poll ⟨1735689604995, 2⟩).1 = .ok (.pending (.ofMillis 1005)) := by
    rw [← hg]
    decide +kernel
  obtain ⟨m₁, again₁, hm₁, -, hagain₁, -, hwait, -⟩ := pending_exact hreached e₁
  obtain ⟨m₂, again₂, hm₂, -, hagain₂, -, -, hready⟩ := pending_exact hreached e₂
  obtain rfl : again₁ = 1735689605000 := by
    have := congrArg Duration.wholeMillis hm₁
    simp only [Duration.wholeMillis_ofMillis] at this
    exact UInt64.toNat_inj.mp (by rw [hagain₁, ← this]; rfl)
  obtain rfl : again₂ = 1735689606000 := by
    have := congrArg Duration.wholeMillis hm₂
    simp only [Duration.wholeMillis_ofMillis] at this
    exact UInt64.toNat_inj.mp (by rw [hagain₂, ← this]; rfl)
  refine ⟨g, _, hreached, hspent, hother, e₁, e₂, hwait _ hspent, ?_⟩
  exact hready hother (by decide) 6 rfl

end IdGenerator
end StoreClient

import StoreClient.Proofs.Ids.Rising

/-! # Runs of polls

A poll does one of three things (`IdGenerator.Polled`): it issues an id and remembers its fields, it
overflows and poisons the lock if there is one, or it leaves the generator as it was.  An overflow
is the one way to poison a lock, for a poll as for a run (`IdGenerator.poisoned_poll_iff`,
`IdGenerator.poisoned_pollAll_iff`). -/

namespace StoreClient

def overflow : Outcome Poll := .error (.panic .arithmetic)

namespace IdLayout

variable {l : IdLayout}

theorem waitFor_eq_error {tick : Nat} {now : UInt64} {e : Failure}
    (h : l.waitFor tick now = .error e) : e = .panic .arithmetic := by
  have hwait : l.waitFor tick now = if wordMax < l.epochMillis + tick * l.unit.millisPerTick then
      .error (.panic .arithmetic)
    else .ok (.ofMillis (Nat.max (l.epochMillis + tick * l.unit.millisPerTick - now.toNat) 1)) := rfl
  rw [hwait] at h
  split at h
  · exact (Except.error.inj h).symm
  · exact nomatch h

theorem tickOf_eq_error {now : UInt64} {e : Error} (h : l.tickOf now = .error e) :
    ∃ value, e = .domain .timestamp value (l.max .timestamp) := by
  unfold tickOf at h
  split at h
  · exact ⟨_, (Except.error.inj h).symm⟩
  · dsimp only at h
    split at h
    · exact nomatch h
    · next e' hc =>
      obtain rfl := Except.error.inj h
      unfold check at hc
      split at hc
      · exact nomatch hc
      · exact ⟨_, (Except.error.inj hc).symm⟩

end IdLayout

namespace IdSettings

variable {c : IdSettings} {h : Option Issued} {r : Reading} {tick : Nat}

theorem issue_ne_panic {s hw : Nat} {p : Panic} : c.issue tick s r hw ≠ .error (.panic p) := by
  intro e
  unfold issue at e
  split at e
  · exact nomatch e
  · exact nomatch e

theorem advance_eq_panic {p : Panic} (e : c.advance h r tick = .error (.panic p)) :
    p = .arithmetic := by
  have hdefer : ∀ t, c.defer t r h = .error (.panic p) → p = .arithmetic := by
    intro t e
    unfold defer at e
    split at e
    · exact nomatch e
    · next e' hwait =>
      obtain rfl := IdLayout.waitFor_eq_error hwait
      exact (Failure.panic.inj (Except.error.inj e)).symm
  unfold advance at e
  split at e
  · exact absurd e issue_ne_panic
  split at e
  · exact nomatch e
  split at e
  · exact absurd e issue_ne_panic
  split at e
  · exact hdefer _ e
  split at e
  · exact hdefer _ e
  split at e
  · exact absurd e issue_ne_panic
  · exact hdefer _ e

end IdSettings

namespace IdGenerator

section
variable {g : IdGenerator} {r : Reading}

/-- What becomes of a poll that got as far as the memory. -/
def conclude (g : IdGenerator) : Outcome (Poll × Option Issued) → Outcome Poll × IdGenerator
  | .ok (answer, history) => (.ok answer, { g with history := history })
  | .error (.error e) => (.error (.error e), g)
  | .error (.panic p) => (.error (.panic p), { g with poisoned := g.sharing = .locked })

theorem poll_of_noTick {e : Error} (htick : g.settings.layout.tickOf r.now = .error e) :
    g.poll r = (.error (.error e), g) := by
  unfold poll
  simp only [htick]

theorem poll_of_poisoned {tick : Nat} (htick : g.settings.layout.tickOf r.now = .ok tick)
    (hlock : g.poisoned = true) : g.poll r = (.error (.error .lockPoisoned), g) := by
  unfold poll
  simp only [htick, hlock, if_true]

theorem poll_of_free {tick : Nat} (htick : g.settings.layout.tickOf r.now = .ok tick)
    (hfree : g.poisoned = false) :
    g.poll r = g.conclude (g.settings.advance g.history r tick) := by
  unfold poll
  simp only [htick, hfree, Bool.false_eq_true, if_false]
  split
  · next e =>
    rw [e, conclude, hfree]
  · next e => rw [e, conclude]
  · next e => rw [e, conclude]

end

/-- All that a poll can do: its answer, and the generator after it. -/
inductive Polled (g : IdGenerator) (r : Reading) : Outcome Poll → IdGenerator → Prop
  | issued {tick : Nat} {id : SnowflakeId} {i : Issued} (free : g.poisoned = false)
    (tickOf : g.settings.layout.tickOf r.now = .ok tick)
    (advance : g.settings.advance g.history r tick = .ok (.ready id, some i)) :
    Polled g r (.ok (.ready id)) { g with history := some i }
  | overflowed (free : g.poisoned = false) :
    Polled g r overflow { g with poisoned := g.sharing = .locked }
  | unchanged {a : Outcome Poll} (noId : readyId? a = none) (inWords : a ≠ overflow) :
    Polled g r a g

theorem polled (g : IdGenerator) (r : Reading) : g.Polled r (g.poll r).1 (g.poll r).2 := by
  cases htick : g.settings.layout.tickOf r.now with
  | error e =>
    rw [poll_of_noTick htick]
    exact .unchanged rfl nofun
  | ok tick =>
    cases hlock : g.poisoned with
    | true =>
      rw [poll_of_poisoned htick hlock]
      exact .unchanged rfl nofun
    | false =>
      rw [poll_of_free htick hlock]
      cases e : g.settings.advance g.history r tick with
      | ok result =>
        obtain ⟨a, h'⟩ := result
        rcases IdSettings.advance_eq_ok e with ⟨⟨d, rfl⟩, rfl⟩ | ⟨id, i, rfl, rfl, -⟩
        · exact .unchanged rfl nofun
        · exact .issued hlock htick e
      | error failure =>
        cases failure with
        | error cause => exact .unchanged rfl nofun
        | panic p =>
          obtain rfl := IdSettings.advance_eq_panic e
          exact .overflowed hlock

variable {g : IdGenerator} {r : Reading}

theorem sharing_poll (g : IdGenerator) (r : Reading) : (g.poll r).2.sharing = g.sharing := by
  have h := g.polled r
  generalize (g.poll r).1 = a, (g.poll r).2 = g' at h
  cases h with
  | issued free tickOf advance => rfl
  | overflowed free => rfl
  | unchanged noId inWords => rfl

/-- An overflow poisons the lock, if there is one, and does nothing else. -/
theorem poll_of_overflow (hover : (g.poll r).1 = overflow) :
    g.poisoned = false ∧ (g.poll r).2 = { g with poisoned := g.sharing = .locked } := by
  have h := g.polled r
  generalize (g.poll r).1 = a, (g.poll r).2 = g' at h hover
  cases h with
  | issued free tickOf advance => exact nomatch hover
  | overflowed free => exact ⟨free, rfl⟩
  | unchanged noId inWords => exact absurd hover inWords

/-- Nothing else poisons the lock, and nothing clears it. -/
theorem poisoned_poll_iff (g : IdGenerator) (r : Reading) :
    (g.poll r).2.poisoned = true ↔
      g.poisoned = true ∨ g.sharing = .locked ∧ (g.poll r).1 = overflow := by
  have h := g.polled r
  generalize (g.poll r).1 = a, (g.poll r).2 = g' at h
  cases h with
  | issued free tickOf advance =>
    constructor
    · exact .inl
    · rintro (hlock | ⟨-, hover⟩)
      · exact hlock
      · exact nomatch hover
  | overflowed free =>
    constructor
    · exact fun hlocked => .inr ⟨of_decide_eq_true hlocked, rfl⟩
    · rintro (hlock | ⟨hlocked, -⟩)
      · exact absurd (free.symm.trans hlock) Bool.false_ne_true
      · exact decide_eq_true hlocked
  | unchanged noId inWords =>
    constructor
    · exact .inl
    · rintro (hlock | ⟨-, hover⟩)
      · exact hlock
      · exact absurd hover inWords

/-- A poll without an id leaves the generator as it was, unless it overflows under a lock. -/
theorem poll_eq_self (hid : readyId? (g.poll r).1 = none)
    (hwords : g.sharing = .locked → (g.poll r).1 ≠ overflow) : (g.poll r).2 = g := by
  have h := g.polled r
  generalize (g.poll r).1 = a, (g.poll r).2 = g' at h hid hwords
  cases h with
  | issued free tickOf advance => exact nomatch hid
  | overflowed free =>
    have halone : ¬g.sharing = .locked := fun hlocked => hwords hlocked rfl
    have hsame : decide (g.sharing = .locked) = g.poisoned :=
      (decide_eq_false halone).trans free.symm
    rw [hsame]
  | unchanged noId inWords => rfl

theorem pollAll_cons (g : IdGenerator) (r : Reading) (rs : List Reading) :
    g.pollAll (r :: rs) =
      ((g.poll r).1 :: ((g.poll r).2.pollAll rs).1, ((g.poll r).2.pollAll rs).2) := rfl

/-- The readings of a run, each with its answer. -/
def transcript (g : IdGenerator) (rs : List Reading) : List (Reading × Outcome Poll) :=
  rs.zip (g.pollAll rs).1

theorem transcript_cons (g : IdGenerator) (r : Reading) (rs : List Reading) :
    g.transcript (r :: rs) = (r, (g.poll r).1) :: (g.poll r).2.transcript rs := rfl

theorem pollAll_append (g : IdGenerator) (rs rs' : List Reading) :
    g.pollAll (rs ++ rs') =
      ((g.pollAll rs).1 ++ ((g.pollAll rs).2.pollAll rs').1, ((g.pollAll rs).2.pollAll rs').2) := by
  induction rs generalizing g with
  | nil => rfl
  | cons r rs ih => rw [List.cons_append, pollAll_cons, ih, pollAll_cons, List.cons_append]

theorem settings_pollAll (g : IdGenerator) (rs : List Reading) :
    (g.pollAll rs).2.settings = g.settings := by
  induction rs generalizing g with
  | nil => rfl
  | cons r rs ih => rw [pollAll_cons, ih, settings_poll]

theorem sharing_pollAll (g : IdGenerator) (rs : List Reading) :
    (g.pollAll rs).2.sharing = g.sharing := by
  induction rs generalizing g with
  | nil => rfl
  | cons r rs ih => rw [pollAll_cons, ih, sharing_poll]

theorem poisoned_pollAll_iff (g : IdGenerator) (rs : List Reading) :
    (g.pollAll rs).2.poisoned = true ↔
      g.poisoned = true ∨ g.sharing = .locked ∧ overflow ∈ (g.pollAll rs).1 := by
  induction rs generalizing g with
  | nil =>
    constructor
    · exact .inl
    · rintro (hlock | ⟨-, hover⟩)
      · exact hlock
      · exact absurd hover List.not_mem_nil
  | cons r rs ih =>
    rw [pollAll_cons, ih, poisoned_poll_iff, sharing_poll, List.mem_cons, or_assoc, ← and_or_left,
      eq_comm (a := overflow)]

/-- A layout whose tick 2 is the last millisecond that a word can say. -/
def lastTicks : IdSettings where
  layout := ⟨41, 10, 3, .millis, .ofMillis 18446744073709551613, Nat.succ_pos 40, Nat.succ_pos 9,
    Nat.succ_pos 2, Nat.le_add_right 54 9⟩

end IdGenerator
end StoreClient

import StoreClient.Proofs.Ids.Keeping

/-! # Calls that wait for an id

A call polls until a poll settles the matter: the poll issues an id or fails, or it is pending and
the call has to give up, because waiting was cancelled or has lasted too long.  `GoesOn` and
`EndsAt` say which, poll by poll, and the call ends with the first poll that does not let it go on.
A pending poll leaves the generator as it was, so each poll of a call asks the generator that the
caller had at first, and only a call that returns an id has changed it (`IdGenerator.settles`).

The call of a thread and the calls of a task, with a timer or without, differ in how they pause
(`Waiter.pause`), and each starts its timer when it has to wait for the first time
(`Waiter.loop`). -/

namespace StoreClient

/-! ### Calls -/

/-- What a call meets: what each poll reads, whether waiting was cancelled by the time that so many
polls were made, and the instants, in nanoseconds, at which the timer starts and at which it is read
after each poll. -/
structure Course where
  reading : Nat → Reading
  cancelled : Nat → Bool
  begun : Nat
  instant : Nat → Nat

namespace Course

variable (x : Course)

/-- How long the call has waited after a poll. -/
def waited (n : Nat) : Duration := ⟨x.instant n - x.begun⟩

def readings (n : Nat) : List Reading := (List.range n).map x.reading

def poll (s : IdGenerator × Nat) : Outcome Poll × IdGenerator × Nat :=
  ((s.1.poll (x.reading s.2)).1, (s.1.poll (x.reading s.2)).2, s.2 + 1)

/-- A call after `n` polls: its answer, the generator it leaves and how many polls were made. -/
def settle (fuel n : Nat) (g : IdGenerator) : Option (Outcome SnowflakeId) × IdGenerator × Nat :=
  StoreClient.settle g.settings x.poll (fun s => x.cancelled s.2) x.waited fuel n (g, n)

end Course

/-- How a caller pauses. -/
inductive Pause where
  | yieldThread
  | sleepThread (d : Duration)
  | yieldTask
  | sleepTask (d : Duration)
  deriving DecidableEq, Repr

/-- Who waits for an id. -/
inductive Waiter where
  | thread
  /-- A task that sleeps. -/
  | timer
  /-- A task that only lets others run. -/
  | yielding
  deriving DecidableEq, Repr

/-- At most a millisecond of a wait. -/
def Duration.slice (d : Duration) : Duration := ⟨min d.nanos nanosPerMilli⟩

namespace Waiter

def pause : Waiter → Duration → Pause
  | thread, d => if d.nanos = 0 then .yieldThread else .sleepThread d
  | timer, d => .sleepTask d
  | yielding, _ => .yieldTask

/-- A call that starts its timer when it has to wait for the first time, with its pauses. -/
def loop (v : Waiter) (x : Course) : (fuel n : Nat) → (started : Option Nat) → IdGenerator →
    Option (Outcome SnowflakeId) × IdGenerator × List Pause
  | 0, _, _, g => (none, g, [])
  | fuel + 1, n, started, g =>
    match g.poll (x.reading n) with
    | (.error e, g) => (some (.error e), g, [])
    | (.ok (.ready id), g) => (some (.ok id), g, [])
    | (.ok (.pending d), g) =>
      let begun := started.getD x.begun
      match g.settings.giveUp? (x.cancelled (n + 1)) ⟨x.instant n - begun⟩ with
      | some e => (some (.error (.error e)), g, [])
      | none =>
        let (r, g, pauses) := v.loop x fuel (n + 1) (some begun) g
        (r, g, v.pause d.slice :: pauses)

end Waiter

namespace IdBench

/-- The bench after so many readings. -/
def later (b : IdBench) : Nat → IdBench
  | 0 => b
  | n + 1 => (b.later n).readClock.2

/-- What a call meets on a bench, with equal pauses. -/
def course (b : IdBench) (pause : Duration) : Course where
  reading n := (b.later n).reading
  cancelled n := (b.later n).cancelled
  begun := 0
  instant n := n * pause.nanos

end IdBench

/-! ### How a call ends -/

namespace IdSettings

variable {c : IdSettings} {cancelled : Bool} {waited : Duration}

theorem giveUp?_eq_none (hcancelled : cancelled = false) (hlt : waited.nanos < c.maxWait.nanos) :
    c.giveUp? cancelled waited = none := by
  simp [giveUp?, hcancelled, hlt]

theorem giveUp?_of_cancelled (hcancelled : cancelled = true) :
    c.giveUp? cancelled waited = some .interrupted := by
  simp [giveUp?, hcancelled]

theorem giveUp?_of_le (hcancelled : cancelled = false) (hle : c.maxWait.nanos ≤ waited.nanos) :
    c.giveUp? cancelled waited = some (.waitTimeout waited) := by
  simp [giveUp?, hcancelled, hle]

end IdSettings

namespace IdGenerator

/-- The poll is pending, and waiting is neither cancelled nor too long. -/
def GoesOn (g : IdGenerator) (x : Course) (n : Nat) : Prop :=
  (∃ d, (g.poll (x.reading n)).1 = .ok (.pending d)) ∧ x.cancelled (n + 1) = false ∧
    (x.waited n).nanos < g.settings.maxWait.nanos

/-- The poll with which a call ends, and how. -/
inductive EndsAt (g : IdGenerator) (x : Course) (n : Nat) : Outcome SnowflakeId → Prop where
  | issued {id : SnowflakeId} : (g.poll (x.reading n)).1 = .ok (.ready id) → EndsAt g x n (.ok id)
  | failed {e : Failure} : (g.poll (x.reading n)).1 = .error e → EndsAt g x n (.error e)
  | interrupted {d : Duration} : (g.poll (x.reading n)).1 = .ok (.pending d) →
    x.cancelled (n + 1) = true → EndsAt g x n (.error (.error .interrupted))
  | timedOut {d : Duration} : (g.poll (x.reading n)).1 = .ok (.pending d) →
    x.cancelled (n + 1) = false → g.settings.maxWait.nanos ≤ (x.waited n).nanos →
    EndsAt g x n (.error (.error (.waitTimeout (x.waited n))))

variable {g : IdGenerator} {x : Course} {n : Nat} {r : Outcome SnowflakeId}

theorem goesOn_or_endsAt (g : IdGenerator) (x : Course) (n : Nat) :
    g.GoesOn x n ∨ ∃ r, g.EndsAt x n r := by
  cases hpoll : (g.poll (x.reading n)).1 with
  | error e => exact .inr ⟨_, .failed hpoll⟩
  | ok answer =>
    cases answer with
    | ready id => exact .inr ⟨_, .issued hpoll⟩
    | pending d =>
      cases hcancelled : x.cancelled (n + 1) with
      | true => exact .inr ⟨_, .interrupted hpoll hcancelled⟩
      | false =>
        rcases Nat.lt_or_ge (x.waited n).nanos g.settings.maxWait.nanos with hlt | hle
        · exact .inl ⟨⟨d, hpoll⟩, hcancelled, hlt⟩
        · exact .inr ⟨_, .timedOut hpoll hcancelled hle⟩

theorem poll_of_pending {r : Reading} {d : Duration} (h : (g.poll r).1 = .ok (.pending d)) :
    g.poll r = (.ok (.pending d), g) := by
  have hsame : (g.poll r).2 = g := by
    apply poll_eq_self
    · rw [h]
      rfl
    · intro _ hover
      rw [h] at hover
      cases hover
  exact Prod.ext h hsame

end IdGenerator

namespace Course

variable {g : IdGenerator} {x : Course} {n fuel : Nat} {r : Outcome SnowflakeId}

theorem settle_of_goesOn (h : g.GoesOn x n) (fuel : Nat) :
    x.settle (fuel + 1) n g = x.settle fuel (n + 1) g := by
  obtain ⟨⟨d, hpoll⟩, hcancelled, hlt⟩ := h
  unfold settle
  rw [StoreClient.settle]
  simp only [poll, IdGenerator.poll_of_pending hpoll, IdSettings.giveUp?_eq_none hcancelled hlt]

theorem settle_of_endsAt (h : g.EndsAt x n r) (fuel : Nat) :
    x.settle (fuel + 1) n g = (some r, (g.poll (x.reading n)).2, n + 1) := by
  unfold settle
  rw [StoreClient.settle]
  cases h with
  | issued hpoll => simp only [poll, hpoll]
  | failed hpoll => simp only [poll, hpoll]
  | interrupted hpoll hcancelled =>
    simp only [poll, IdGenerator.poll_of_pending hpoll, IdSettings.giveUp?_of_cancelled hcancelled]
  | timedOut hpoll hcancelled hle =>
    simp only [poll, IdGenerator.poll_of_pending hpoll, IdSettings.giveUp?_of_le hcancelled hle]

/-- Polls that let the call go on can be left out. -/
theorem settle_add {k : Nat} (h : ∀ i < k, g.GoesOn x (n + i)) (fuel : Nat) :
    x.settle (k + fuel) n g = x.settle fuel (n + k) g := by
  induction k generalizing n with
  | zero => rw [Nat.zero_add, Nat.add_zero]
  | succ k ih =>
    have hfirst : g.GoesOn x n := h 0 (Nat.succ_pos k)
    have hrest : ∀ i < k, g.GoesOn x (n + 1 + i) := by
      intro i hi
      have := h (i + 1) (Nat.succ_lt_succ hi)
      rwa [Nat.add_comm i, ← Nat.add_assoc] at this
    rw [Nat.add_right_comm, settle_of_goesOn hfirst, ih hrest, Nat.add_right_comm, Nat.add_assoc]

theorem goesOn_or_exists_endsAt (g : IdGenerator) (x : Course) (fuel : Nat) :
    (∀ i < fuel, g.GoesOn x i) ∨ ∃ n r, n < fuel ∧ (∀ i < n, g.GoesOn x i) ∧ g.EndsAt x n r := by
  induction fuel with
  | zero =>
    left
    intro i hi
    exact absurd hi (Nat.not_lt_zero i)
  | succ fuel ih =>
    rcases ih with hall | ⟨n, r, hn, hbefore, hends⟩
    · rcases g.goesOn_or_endsAt x fuel with hgoes | ⟨r, hends⟩
      · left
        intro i hi
        rcases Nat.lt_succ_iff_lt_or_eq.mp hi with hi | rfl
        · exact hall i hi
        · exact hgoes
      · exact .inr ⟨fuel, r, Nat.lt_succ_self fuel, hall, hends⟩
    · exact .inr ⟨n, r, Nat.lt_succ_of_lt hn, hbefore, hends⟩

theorem pollAll_readings_succ (hsame : (g.pollAll (x.readings n)).2 = g)
    (hnone : issuedIds (g.pollAll (x.readings n)).1 = []) :
    (g.pollAll (x.readings (n + 1))).2 = (g.poll (x.reading n)).2 ∧
      issuedIds (g.pollAll (x.readings (n + 1))).1 =
        (readyId? (g.poll (x.reading n)).1).toList := by
  have hreadings : x.readings (n + 1) = x.readings n ++ [x.reading n] := by
    simp [readings, List.range_succ]
  rw [hreadings, IdGenerator.pollAll_append, hsame]
  refine ⟨rfl, ?_⟩
  unfold issuedIds at hnone ⊢
  rw [List.filterMap_append, hnone, List.nil_append]
  exact g.issuedIds_pollAll_cons (x.reading n) [] |>.trans (List.append_nil _)

theorem pollAll_of_goesOn (h : ∀ i < n, g.GoesOn x i) :
    (g.pollAll (x.readings n)).2 = g ∧ issuedIds (g.pollAll (x.readings n)).1 = [] := by
  induction n with
  | zero => exact ⟨rfl, rfl⟩
  | succ n ih =>
    obtain ⟨hsame, hnone⟩ := ih fun i hi => h i (Nat.lt_succ_of_lt hi)
    obtain ⟨⟨d, hpoll⟩, -⟩ := h n (Nat.lt_succ_self n)
    obtain ⟨hsame', hids⟩ := pollAll_readings_succ hsame hnone
    rw [IdGenerator.poll_of_pending hpoll] at hsame' hids
    exact ⟨hsame', hids⟩

theorem settle_of_all (h : ∀ i < fuel, g.GoesOn x i) : x.settle fuel 0 g = (none, g, fuel) := by
  have hadd := settle_add (fun i hi => (Nat.zero_add i).symm ▸ h i hi) 0
  rwa [Nat.add_zero, Nat.zero_add] at hadd

theorem settle_of_first (hbefore : ∀ i < n, g.GoesOn x i) (hends : g.EndsAt x n r)
    (hn : n < fuel) : x.settle fuel 0 g = (some r, (g.poll (x.reading n)).2, n + 1) := by
  obtain ⟨more, rfl⟩ : ∃ more, fuel = n + (more + 1) := ⟨fuel - n - 1, by omega⟩
  rw [settle_add fun i hi => (Nat.zero_add i).symm ▸ hbefore i hi, Nat.zero_add,
    settle_of_endsAt hends]

/-- All that a call can come to. -/
theorem settle_cases (g : IdGenerator) (x : Course) (fuel : Nat) :
    ((∀ i < fuel, g.GoesOn x i) ∧ x.settle fuel 0 g = (none, g, fuel)) ∨
      ∃ n r, (∀ i < n, g.GoesOn x i) ∧ g.EndsAt x n r ∧
        x.settle fuel 0 g = (some r, (g.poll (x.reading n)).2, n + 1) := by
  rcases goesOn_or_exists_endsAt g x fuel with hall | ⟨n, r, hn, hbefore, hends⟩
  · exact .inl ⟨hall, settle_of_all hall⟩
  · exact .inr ⟨n, r, hbefore, hends, settle_of_first hbefore hends hn⟩

end Course

/-! ### Threads, tasks and benches -/

namespace Waiter

open Course

/-- Who waits makes no difference but for the pauses. -/
theorem loop_eq (x : Course) (fuel n : Nat) (g : IdGenerator) {started : Option Nat}
    (hstarted : ∀ i ∈ started, i = x.begun) :
    ∃ waits : List Duration, ∀ v : Waiter, v.loop x fuel n started g =
      ((x.settle fuel n g).1, (x.settle fuel n g).2.1, waits.map fun d => v.pause d.slice) := by
  induction fuel generalizing n g started with
  | zero => exact ⟨[], fun _ => rfl⟩
  | succ fuel ih =>
    have hbegun : started.getD x.begun = x.begun := by
      cases started with
      | none => rfl
      | some i => exact hstarted i rfl
    have hwaited : (⟨x.instant n - started.getD x.begun⟩ : Duration) = x.waited n := by
      rw [hbegun]
      rfl
    rcases g.goesOn_or_endsAt x n with hgoes | ⟨r, hends⟩
    · rw [settle_of_goesOn hgoes]
      obtain ⟨⟨d, hpoll⟩, hcancelled, hlt⟩ := hgoes
      have hstarted' : ∀ i ∈ some (started.getD x.begun), i = x.begun := by
        rintro i ⟨⟩
        exact hbegun
      obtain ⟨waits, hwaits⟩ := ih (n + 1) g hstarted'
      refine ⟨d :: waits, ?_⟩
      intro v
      simp only [loop, IdGenerator.poll_of_pending hpoll, hwaited,
        IdSettings.giveUp?_eq_none hcancelled hlt, hwaits v, List.map_cons]
    · rw [settle_of_endsAt hends]
      refine ⟨[], ?_⟩
      intro v
      rw [loop]
      cases hends with
      | @issued id hpoll =>
        have hpair : g.poll (x.reading n) = (.ok (.ready id), (g.poll (x.reading n)).2) :=
          Prod.ext hpoll rfl
        rw [hpair]
        rfl
      | @failed e hpoll =>
        have hpair : g.poll (x.reading n) = (.error e, (g.poll (x.reading n)).2) :=
          Prod.ext hpoll rfl
        rw [hpair]
        rfl
      | interrupted hpoll hcancelled =>
        simp only [IdGenerator.poll_of_pending hpoll, hwaited,
          IdSettings.giveUp?_of_cancelled hcancelled, List.map_nil]
      | timedOut hpoll hcancelled hle =>
        simp only [IdGenerator.poll_of_pending hpoll, hwaited,
          IdSettings.giveUp?_of_le hcancelled hle, List.map_nil]

end Waiter

namespace IdBench

variable (b : IdBench) (pause : Duration)

theorem settle_later (fuel n : Nat) (g : IdGenerator) :
    settle g.settings poll (·.cancelled) (evenly pause) fuel n ((b.later n).under g) =
      (((b.course pause).settle fuel n g).1,
        (b.later ((b.course pause).settle fuel n g).2.2).under
          ((b.course pause).settle fuel n g).2.1) := by
  induction fuel generalizing n g with
  | zero => rfl
  | succ fuel ih =>
    have hpolled : ((b.later n).under g).poll = ((g.poll ((b.course pause).reading n)).1,
        (b.later (n + 1)).under (g.poll ((b.course pause).reading n)).2) := poll_under _ g
    have hwaited : evenly pause n = (b.course pause).waited n := rfl
    have hcancelled' (g' : IdGenerator) : ((b.later (n + 1)).under g').cancelled =
        (b.course pause).cancelled (n + 1) := rfl
    rw [StoreClient.settle, hpolled]
    rcases g.goesOn_or_endsAt (b.course pause) n with hgoes | ⟨r, hends⟩
    · rw [Course.settle_of_goesOn hgoes]
      obtain ⟨⟨d, hpoll⟩, hcancelled, hlt⟩ := hgoes
      simp only [IdGenerator.poll_of_pending hpoll, hcancelled', hwaited,
        IdSettings.giveUp?_eq_none hcancelled hlt]
      exact ih (n + 1) g
    · rw [Course.settle_of_endsAt hends]
      cases hends with
      | issued hpoll => simp only [hpoll]
      | failed hpoll => simp only [hpoll]
      | interrupted hpoll hcancelled =>
        simp only [IdGenerator.poll_of_pending hpoll, hcancelled',
          IdSettings.giveUp?_of_cancelled hcancelled]
      | timedOut hpoll hcancelled hle =>
        simp only [IdGenerator.poll_of_pending hpoll, hcancelled', hwaited,
          IdSettings.giveUp?_of_le hcancelled hle]

/-- A call on a bench is a call that meets what the bench reads. -/
theorem next_eq {call : Option (Outcome SnowflakeId) × IdGenerator × Nat}
    (h : (b.course pause).settle (b.generator.settings.rounds pause) 0 b.generator = call) :
    b.next pause = (call.1, (b.later call.2.2).under call.2.1) :=
  h ▸ b.settle_later pause (b.generator.settings.rounds pause) 0 b.generator

end IdBench

/-! ### What a call comes to -/

namespace IdGenerator

variable {g : IdGenerator} {x : Course}

/-- What a call comes to that waits for an id, if none of its polls overflows. -/
structure Settles (g : IdGenerator) (x : Course) : Prop where
  either : ∀ n, g.GoesOn x n ∨ ∃ r, g.EndsAt x n r
  /-- It ends with the first poll that does not let it go on. -/
  ends : ∀ n r, (∀ i < n, g.GoesOn x i) → g.EndsAt x n r → ∀ fuel, n < fuel →
    x.settle fuel 0 g = (some r, (g.poll (x.reading n)).2, n + 1)
  waits : ∀ fuel, (∀ i < fuel, g.GoesOn x i) → x.settle fuel 0 g = (none, g, fuel)
  /-- Threads and tasks get the same answer from the same course, and pause for the same waits. -/
  alike : ∀ fuel, ∃ waits : List Duration, ∀ v : Waiter, v.loop x fuel 0 none g =
    ((x.settle fuel 0 g).1, (x.settle fuel 0 g).2.1, waits.map fun d => v.pause d.slice)
  /-- So does a bench that brings the course. -/
  bench : ∀ (b : IdBench) (pause : Duration), b.generator = g → b.course pause = x →
    (b.next pause).1 = (x.settle (g.settings.rounds pause) 0 g).1 ∧
      (b.next pause).2.generator = (x.settle (g.settings.rounds pause) 0 g).2.1 ∧
      (0 < pause.nanos → (b.next pause).1.isSome)
  /-- A call leaves the generator that its polls leave. -/
  polled : ∀ fuel, (x.settle fuel 0 g).2.1 =
    (g.pollAll (x.readings (x.settle fuel 0 g).2.2)).2
  /-- Where it returns an id, its polls have issued that one only. -/
  issues : ∀ fuel id, (x.settle fuel 0 g).1 = some (.ok id) →
    issuedIds (g.pollAll (x.readings (x.settle fuel 0 g).2.2)).1 = [id]
  /-- Where it fails, the generator is as it was. -/
  keeps : ∀ fuel e, (x.settle fuel 0 g).1 = some (.error e) → (x.settle fuel 0 g).2.1 = g
  /-- Once waiting is cancelled it polls only once, and still returns an id that is there. -/
  cancelled : x.cancelled 1 = true → ∀ fuel, 0 < fuel → (x.settle fuel 0 g).2.2 = 1 ∧
    ∀ id, (g.poll (x.reading 0)).1 = .ok (.ready id) → (x.settle fuel 0 g).1 = some (.ok id)

theorem EndsAt.keeps {n : Nat} {e : Failure} (h : g.EndsAt x n (.error e))
    (hwords : (g.poll (x.reading n)).1 ≠ overflow) : (g.poll (x.reading n)).2 = g := by
  cases h with
  | failed hpoll =>
    apply poll_eq_self
    · rw [hpoll]
      rfl
    · intro _
      exact hwords
  | interrupted hpoll => rw [poll_of_pending hpoll]
  | timedOut hpoll => rw [poll_of_pending hpoll]

/-- Any call for an id whose polls do not overflow. -/
theorem settles (g : IdGenerator) (x : Course)
    (hwords : ∀ n, (∀ i < n, g.GoesOn x i) → (g.poll (x.reading n)).1 ≠ overflow) :
    g.Settles x := by
  constructor
  · exact g.goesOn_or_endsAt x
  · intro n r hbefore hends fuel hn
    exact Course.settle_of_first hbefore hends hn
  · intro fuel hall
    exact Course.settle_of_all hall
  · intro fuel
    exact Waiter.loop_eq x fuel 0 g nofun
  · rintro b pause rfl rfl
    have hnext := b.next_eq pause rfl
    refine ⟨congrArg Prod.fst hnext, ?_, ?_⟩
    · rw [hnext]
      rfl
    · intro hpause
      exact settle_evenly_isSome hpause b
  · intro fuel
    rcases x.settle_cases g fuel with ⟨hall, hcall⟩ | ⟨n, r, hbefore, hends, hcall⟩
    · rw [hcall]
      exact (Course.pollAll_of_goesOn hall).1.symm
    · rw [hcall]
      obtain ⟨hsame, hnone⟩ := Course.pollAll_of_goesOn hbefore
      exact (Course.pollAll_readings_succ hsame hnone).1.symm
  · intro fuel id hid
    rcases x.settle_cases g fuel with ⟨hall, hcall⟩ | ⟨n, r, hbefore, hends, hcall⟩
    · rw [hcall] at hid
      cases hid
    · rw [hcall] at hid ⊢
      cases hid
      cases hends with
      | issued hpoll =>
        obtain ⟨hsame, hnone⟩ := Course.pollAll_of_goesOn hbefore
        rw [(Course.pollAll_readings_succ hsame hnone).2, hpoll]
        rfl
  · intro fuel e he
    rcases x.settle_cases g fuel with ⟨hall, hcall⟩ | ⟨n, r, hbefore, hends, hcall⟩
    · rw [hcall]
    · rw [hcall] at he ⊢
      cases he
      exact hends.keeps (hwords n hbefore)
  · intro hcancelled fuel hfuel
    have hbefore : ∀ i < 0, g.GoesOn x i := fun i hi => absurd hi (Nat.not_lt_zero i)
    constructor
    · rcases g.goesOn_or_endsAt x 0 with ⟨-, hopen, -⟩ | ⟨r, hends⟩
      · rw [hcancelled] at hopen
        cases hopen
      · rw [Course.settle_of_first hbefore hends hfuel]
    · intro id hid
      rw [Course.settle_of_first hbefore (.issued hid) hfuel]

def borrowed : IdGenerator := ((fresh .locked .standard).poll ⟨1735689605000, 1⟩).2

/-- Another worker, and a clock that stands for two polls in the tick of that id. -/
def standing : Course where
  reading n := if n < 2 then ⟨1735689605000, 2⟩ else ⟨1735689605001, 2⟩
  cancelled _ := false
  begun := 7
  instant n := 7 + 1000000 * n

theorem settles_of_standing :
    (∀ n, (∀ i < n, borrowed.GoesOn standing i) →
      (borrowed.poll (standing.reading n)).1 ≠ overflow) ∧ borrowed.Settles standing := by
  have hwords : ∀ n, (∀ i < n, borrowed.GoesOn standing i) →
      (borrowed.poll (standing.reading n)).1 ≠ overflow := by
    intro n _
    by_cases hn : n < 2
    · simp only [standing, hn, if_true]
      decide +kernel
    · simp only [standing, hn, if_false]
      decide +kernel
  exact ⟨hwords, settles borrowed standing hwords⟩

/-- The third poll issues the id, after two pauses of a millisecond. -/
example : (Waiter.thread.loop standing 9 0 none borrowed).2.2 =
    [.sleepThread (.ofMillis 1), .sleepThread (.ofMillis 1)] := by decide +kernel

end IdGenerator

end StoreClient

import StoreClient.Proofs.Tasks.Stages

/-! # Drains

A call that drains a task goes from stage to stage until it has given the task back, also if the
queue changes between its steps as it likes (`Machine.Path`).  Unless a panic leaves the hook, it
returns how many items it took, and the consumer was handed each of them, whatever became of the
others (`Machine.drain_isolates_failures`). -/

namespace StoreClient.Tasks

/-- Another queue for a task, while calls are under way. -/
def Machine.requeue (m : Machine) (t : Nat) (queue : List Item) (onEmpty : List (List Action)) :
    Machine :=
  { m with world := m.world.requeue t queue onEmpty }

namespace Machine

/-! ### Whole runs -/

/-- Steps from one machine to another, and the machines from which they are taken.  A queue that is
not plain may change before each of them. -/
inductive Path (t : Nat) (plain : Prop) : Machine → List Machine → Machine → Prop where
  | refl (m : Machine) : Path t plain m [] m
  /-- A run that has ended stays where it is. -/
  | ended {m : Machine} : m.stack = [] → Path t plain m [m] m
  | step {m m' : Machine} {ms : List Machine} : m.stack ≠ [] → Path t plain m.step ms m' →
    Path t plain m (m :: ms) m'
  | requeue {m m' : Machine} {ms : List Machine} {queue : List Item}
    {onEmpty : List (List Action)} : ¬plain → (∀ item ∈ queue, item.Reentrant t) →
    (∀ script ∈ onEmpty, ∀ a ∈ script, a.Reentrant t) →
    Path t plain (m.requeue t queue onEmpty) ms m' → Path t plain m ms m'

variable {t : Nat} {plain : Prop} {w : World} {m m' : Machine} {ms : List Machine} {s s' : Stage}

namespace Path

theorem trail (m : Machine) : Path t plain m m.trail m.run := by
  induction m using trail.induct with
  | case1 m hstack =>
    rw [Machine.run, Machine.trail, if_pos hstack, if_pos hstack]
    exact .ended hstack
  | case2 m hstack ih =>
    rw [Machine.run, Machine.trail, if_neg hstack, if_neg hstack]
    exact .step hstack ih

theorem above (h : Path t plain m ms m') (k : List Frame) :
    ∃ ms', Path t plain (m.above k) ms' (m'.above k) := by
  induction h with
  | refl => exact ⟨[], .refl _⟩
  | ended => exact ⟨[], .refl _⟩
  | @step m m' ms hstack _ ih =>
    obtain ⟨ms', hpath⟩ := ih
    have hne : (m.above k).stack ≠ [] := List.append_ne_nil_of_left_ne_nil hstack k
    rw [← step_above m k hstack] at hpath
    exact ⟨m.above k :: ms', .step hne hpath⟩
  | requeue hfree hqueue honEmpty _ ih =>
    obtain ⟨ms', hpath⟩ := ih
    exact ⟨ms', .requeue hfree hqueue honEmpty hpath⟩

theorem split {before after : List Machine} {m₁ : Machine} (h : Path t plain m ms m')
    (hms : ms = before ++ m₁ :: after) :
    Path t plain m before m₁ ∧ Path t plain m₁ (m₁ :: after) m' := by
  induction h generalizing before with
  | refl => simp at hms
  | @ended m hstack =>
    cases before with
    | nil =>
      obtain ⟨rfl, rfl⟩ := List.cons.inj hms
      exact ⟨.refl _, .ended hstack⟩
    | cons m₀ before => simp at hms
  | @step m m' ms hstack hrest ih =>
    cases before with
    | nil =>
      obtain ⟨rfl, rfl⟩ := List.cons.inj hms
      exact ⟨.refl _, .step hstack hrest⟩
    | cons m₀ before =>
      obtain ⟨rfl, hrest⟩ := List.cons.inj hms
      obtain ⟨hbefore, hafter⟩ := ih hrest
      exact ⟨.step hstack hbefore, hafter⟩
  | requeue hfree hqueue honEmpty _ ih =>
    obtain ⟨hbefore, hafter⟩ := ih hms
    exact ⟨.requeue hfree hqueue honEmpty hbefore, hafter⟩

end Path

theorem Leads.trans {m₁ : Machine} {s₁ : Stage} {ms' : List Machine}
    (h : Leads t plain s s₁ m m₁ ms) (h' : Leads t plain s₁ s' m₁ m' ms') :
    Leads t plain s s' m m' (ms ++ ms') := by
  constructor
  · rw [h'.taken, h.taken, doings_append, Doings.and, List.length_append,
      UInt64.ofNat_add, UInt64.add_assoc]
  · intro hs
    rw [polls_append]
    rcases h'.settles hs with ⟨hs₁, hnil⟩ | hlast
    · rw [hnil, List.append_nil]
      exact h.settles hs₁
    · right
      rw [List.getLast?_append, hlast]
      rfl
  · intro hdue
    rw [polls_append]
    rcases h.wakes hdue with hne | hdue
    · exact .inl (List.append_ne_nil_of_left_ne_nil hne _)
    · exact (h'.wakes hdue).imp_left (List.append_ne_nil_of_right_ne_nil _)
  · rw [h'.panics, h.panics, List.any_append, Bool.or_assoc]
  · rw [doings_append]
    exact h.turns.trans h'.turns
  · rw [doings_append, Doings.and, ← List.append_assoc, h.handed, List.append_assoc, h'.handed,
      List.append_assoc]
  · rw [doings_append, Doings.and, List.filterMap_append, ← List.append_assoc, h.reported,
      List.append_assoc, h'.reported, List.append_assoc]

/-- Where only the world changes and nothing is done. -/
theorem Leads.of_turns {w' : World}
    (hturns : m.world.Turns t plain w' (m.world.task t).cell {}) :
    Leads t plain s s m { m with world := w' } [] where
  taken := (UInt64.add_zero _).symm
  settles hs := .inl ⟨hs, rfl⟩
  wakes hdue := .inr (hdue.imp_right (hturns.cell.symm ▸ ·))
  panics := (Bool.or_false _).symm
  turns := hturns.cell.symm ▸ hturns
  handed := List.append_nil _
  reported := List.append_nil _

theorem Leads.of_ended (hw : m.world.Reentrant t) (hstack : m.stack = []) :
    Leads t plain s s m m [m] := by
  obtain ⟨w, stack, mode⟩ := m
  subst hstack
  apply Leads.of_nothing rfl rfl rfl id id
  · cases mode with
    | running => rfl
    | ended r => simp [hookPanics, failure?]
  · exact hw.turns_refl
  · rfl
  · rfl

theorem Draining.reentrant (h : m.Draining t plain s) : m.world.Reentrant t := by
  cases h with
  | own h | emptied _ h | serving h | returned h | unwound h => exact h.reentrant

/-- Where a drain stands does not depend on a queue that is not plain. -/
theorem Draining.requeue (h : m.Draining t plain s) {queue : List Item}
    {onEmpty : List (List Action)} (hfree : ¬plain) (hqueue : ∀ item ∈ queue, item.Reentrant t)
    (honEmpty : ∀ script ∈ onEmpty, ∀ a ∈ script, a.Reentrant t) :
    (m.requeue t queue onEmpty).Draining t plain s := by
  have hturns : m.world.Turns t plain _ _ {} :=
    h.reentrant.turns_requeue hfree hqueue honEmpty
  cases h with
  | own h habandon _ hpanics => exact .own (h.stays hturns) habandon (absurd · hfree) hpanics
  | emptied _ h hfs => exact .emptied hfree (h.stays hturns) (hturns.cell.symm ▸ hfs)
  | serving h hfs hbase => exact .serving (h.stays hturns) (hturns.cell.symm ▸ hfs) hbase
  | returned h hlow _ =>
    exact .returned (h.stays hturns) ((congrArg Cell.rearmed hturns.cell).trans hlow)
      (absurd · hfree)
  | unwound h => exact .unwound (h.stays hturns)

/-- A drain goes from stage to stage, and account is kept of the whole path. -/
theorem Draining.path (h : m.Draining t plain s) (hpath : Path t plain m ms m') :
    ∃ s', m'.Draining t plain s' ∧ Leads t plain s s' m m' ms := by
  induction hpath generalizing s with
  | refl => exact ⟨s, h, .of_turns h.reentrant.turns_refl⟩
  | ended hstack => exact ⟨s, h, .of_ended h.reentrant hstack⟩
  | step hstack _ ih =>
    obtain ⟨s₁, hnext, hfirst⟩ := h.step hstack
    obtain ⟨s', hlast, hrest⟩ := ih hnext
    exact ⟨s', hlast, hfirst.trans hrest⟩
  | requeue hfree hqueue honEmpty _ ih =>
    obtain ⟨s', hlast, hrest⟩ := ih (h.requeue hfree hqueue honEmpty)
    refine ⟨s', hlast, Leads.trans (.of_turns ?_) hrest⟩
    exact h.reentrant.turns_requeue hfree hqueue honEmpty

/-- Where no call is under way, the drain has given the task back.  It returned the number of items
it took and found the queue empty, or was unwound. -/
theorem Draining.ended (h : m.Draining t plain s) (hstack : m.stack = []) :
    m.world.Stands t plain .waiting ∧ ((∃ p, m.mode = .ended (.panic p)) ∨
      m.mode = .ended (.answer (.count s.taken.toNat)) ∧ s.settled = true ∧
        (m.world.task t).cell.rearmed = false ∧ (plain → (m.world.task t).queue = [])) := by
  cases h with
  | own => cases hstack
  | emptied | serving => exact absurd hstack (by simp)
  | returned h hcalm hempty => exact ⟨h, .inr ⟨rfl, rfl, hcalm, hempty⟩⟩
  | unwound h => exact ⟨h, .inl ⟨_, rfl⟩⟩

theorem Draining.turnedAway (h : m.Draining t plain s) {a : Action} {answer : Answer}
    (hreturned : m.returned? = some (a, answer)) :
    a.TurnedAway (m.world.task t).cell answer := by
  cases h with
  | own => cases hreturned
  | @emptied w fs taken mode _ _ hfs =>
    by_cases hne : fs = []
    · subst hne
      cases hreturned
    · exact hfs.turnedAway hne hreturned
  | @serving w fs base taken mode _ hfs hbase =>
    by_cases hne : fs = []
    · subst hne
      cases base with
      | acting => exact hbase.elim
      | _ => cases hreturned
    · exact hfs.turnedAway hne hreturned
  | returned | unwound => cases hreturned

end Machine

/-! ### Drains that return -/

def World.drain (w : World) (t : Nat) : Machine := ⟨w, [.drain t .claim 0], .running⟩

namespace Machine

/-- What a call that drains a task comes to if no panic leaves the hook. -/
structure Drained (t : Nat) (plain : Prop) (m m' : Machine) (ms : List Machine) : Prop where
  /-- It returns the number of items that polls answered, as a word counts them. -/
  returns : m' = ⟨m'.world, [],
    .ended (.answer (.count ((doings ms).taken.length % (wordMax + 1))))⟩
  /-- It does the same wherever it is made. -/
  anywhere : ∀ k, ∃ ms', Path t plain (m.above k) ms' (m'.above k)
  taken : (doings ms).taken = (polls ms).filterMap id
  /-- The consumer is handed each of them once and in that order. -/
  handed : (doings ms).handed = (doings ms).taken
  accepted : m'.world.accepted t = m.world.accepted t ++ (doings ms).taken.map Item.id
  failures : (m'.world.task t).failures = (m.world.task t).failures +
    UInt64.ofNat ((doings ms).taken.filterMap (·.ending.error?)).length
  shown : (m.world.task t).hook.isSome = true → m'.world.shown t =
    m.world.shown t ++ (doings ms).taken.filterMap (·.ending.error?)
  /-- Callbacks that drain the task get nothing. -/
  drains_return : ∀ m₁ ∈ ms, ∀ u answer, m₁.returned? = some (.run u, answer) → answer = .count 0
  /-- Callbacks that signal owe no drain. -/
  signals_return : ∀ m₁ ∈ ms, ∀ u answer, m₁.returned? = some (.signalReady u, answer) →
    answer = .flag false
  /-- After each of these signals there is a poll. -/
  polls_again : ∀ before m₁ after u answer, ms = before ++ m₁ :: after →
    m₁.returned? = some (.signalReady u, answer) → polls after ≠ []
  last_poll : (polls ms).getLast? = some none
  waiting : (m'.world.task t).cell.state = .waiting

variable {t : Nat} {plain : Prop} {w : World} {m m' : Machine} {ms : List Machine} {s s' : Stage}

theorem draining_drain (hw : w.Reentrant t) (hready : (w.task t).cell.state = .ready)
    (honEmpty : plain → (w.task t).onEmpty = []) : (w.drain t).Draining t plain ⟨false, 0⟩ :=
  .own ⟨hw, honEmpty, hready⟩ nofun nofun nofun

theorem Leads.handed_eq (h : Leads t plain s s' (w.drain t) m ms) (hend : m.stack = []) :
    (doings ms).handed = (doings ms).taken := by
  have hhanded := h.handed
  rw [hend] at hhanded
  simpa [inFlight, World.drain, Frame.handed] using hhanded.symm

theorem Leads.errors_eq (h : Leads t plain s s' (w.drain t) m ms) (hend : m.stack = []) :
    (doings ms).errors = (doings ms).handed.filterMap (·.ending.error?) := by
  have hreported := h.reported
  rw [hend] at hreported
  simpa [unreported, World.drain, Frame.unreported] using hreported.symm

/-- While a poll is due, and no panic leaves the hook, there is one. -/
theorem Draining.polls_ne_nil (h : m.Draining t plain s) (hpath : Path t plain m ms m')
    (hend : m'.stack = []) (hcalm : m'.mode.panics = false)
    (hdue : s.settled = false ∨ (m.world.task t).cell.rearmed = true) : polls ms ≠ [] := by
  obtain ⟨s', hlast, hleads⟩ := h.path hpath
  obtain ⟨-, ⟨p, hp⟩ | ⟨-, hsettled, hlow, -⟩⟩ := hlast.ended hend
  · rw [hp] at hcalm
    cases hcalm
  · rcases hleads.wakes hdue with hne | hs | hr
    · exact hne
    · rw [hsettled] at hs
      cases hs
    · rw [hlow] at hr
      cases hr

theorem Draining.turnedAway_of_mem (h : m.Draining t plain s) (hpath : Path t plain m ms m')
    {m₁ : Machine} (hmem : m₁ ∈ ms) {a : Action} {answer : Answer}
    (hreturned : m₁.returned? = some (a, answer)) :
    a.TurnedAway (m₁.world.task t).cell answer := by
  obtain ⟨before, after, hms⟩ := List.append_of_mem hmem
  obtain ⟨s₁, h₁, -⟩ := h.path (hpath.split hms).1
  exact h₁.turnedAway hreturned

/-- Where a call of a callback has returned, the callback is at work and not the drain. -/
theorem poll?_eq_none_of_returned? {r : Action × Answer} (h : m.returned? = some r) :
    m.poll? = none := by
  unfold returned? at h
  unfold poll?
  split at h
  · next hstack hmode => rw [hstack, hmode]
  · cases h

/-- After a callback has signalled there is a poll, if no panic leaves the hook. -/
theorem Draining.polls_after_signal (h : m.Draining t plain s) {before after : List Machine}
    {m₁ : Machine} (hpath : Path t plain m (before ++ m₁ :: after) m') (hend : m'.stack = [])
    (hcalm : m'.mode.panics = false) {u : Nat} {answer : Answer}
    (hreturned : m₁.returned? = some (.signalReady u, answer)) : polls after ≠ [] := by
  obtain ⟨hbefore, hafter⟩ := hpath.split rfl
  obtain ⟨s₁, h₁, -⟩ := h.path hbefore
  have hraised := (h₁.turnedAway hreturned).2
  have hne := h₁.polls_ne_nil hafter hend hcalm (.inr hraised)
  rwa [polls, List.filterMap_cons_none (poll?_eq_none_of_returned? hreturned)] at hne

/-- A drain from which no panic leaves the hook returns; a plain queue is empty then, and everything
in it was handed over. -/
theorem drained_of_calm (hw : w.Reentrant t) (hready : (w.task t).cell.state = .ready)
    (honEmpty : plain → (w.task t).onEmpty = []) (hpath : Path t plain (w.drain t) ms m')
    (hend : m'.stack = []) (hcalm : ∀ m ∈ ms, m.hookPanics = false) :
    Drained t plain (w.drain t) m' ms ∧ (plain → (m'.world.task t).queue = [] ∧
      (doings ms).handed = (w.task t).queue ++ (doings ms).pushed) := by
  have hfirst := draining_drain hw hready honEmpty
  obtain ⟨s', hlast, hleads⟩ := hfirst.path hpath
  have hpanics : m'.mode.panics = false := by
    rw [hleads.panics]
    simpa [World.drain, Mode.panics] using hcalm
  obtain ⟨hstands, ⟨p, hp⟩ | ⟨hmode, hsettled, -, hempty⟩⟩ := hlast.ended hend
  · rw [hp] at hpanics
    cases hpanics
  have hhanded := hleads.handed_eq hend
  have herrors := hleads.errors_eq hend
  constructor
  · rw [hhanded] at herrors
    constructor
    · obtain ⟨w', stack, mode⟩ := m'
      subst hend hmode
      have hcount : s'.taken.toNat = (doings ms).taken.length % (wordMax + 1) := by
        rw [hleads.taken, UInt64.zero_add]
        exact UInt64.toNat_ofNat'
      rw [hcount]
    · exact hpath.above
    · exact doings_taken ms
    · exact hhanded
    · rw [← hhanded]
      exact hleads.turns.accepted
    · rw [← herrors]
      exact hleads.turns.failures
    · intro hhook
      rw [← herrors, hleads.turns.shown]
      exact congrArg (_ ++ ·) (if_pos hhook)
    · intro m₁ hmem u answer hreturned
      exact hfirst.turnedAway_of_mem hpath hmem hreturned
    · intro m₁ hmem u answer hreturned
      exact (hfirst.turnedAway_of_mem hpath hmem hreturned).1
    · intro before m₁ after u answer hms hreturned
      exact hfirst.polls_after_signal (hms ▸ hpath) hend hpanics hreturned
    · rcases hleads.settles hsettled with ⟨hs, -⟩ | hlast
      · cases hs
      · exact hlast
    · exact hstands.state
  · intro hplain
    have hqueue := hleads.turns.queue hplain
    rw [hempty hplain, List.append_nil, ← hhanded] at hqueue
    exact ⟨hempty hplain, hqueue⟩

/-- Any drain of a ready task that returns, over any queue, while the polls, the consumer and the
hook come back as they like and no panic leaves the hook. -/
theorem drain_isolates_failures (hw : w.Reentrant t) (hready : (w.task t).cell.state = .ready)
    (hpath : Path t False (w.drain t) ms m') (hend : m'.stack = [])
    (hcalm : ∀ m ∈ ms, m.hookPanics = false) : Drained t False (w.drain t) m' ms := by
  have honEmpty : False → (w.task t).onEmpty = [] := False.elim
  exact (drained_of_calm hw hready honEmpty hpath hend hcalm).1

/-- An item at which the queue signals and the consumer drains, pushes, signals and fails. -/
def restless : Item :=
  .mk "a" [.signalReady 0]
    [.run 0, .push 0 (.mk "b" [] [] (.panic .other)), .signalReady 0] (.failure "refused")

/-- A ready task whose empty queue is filled by a poll, and whose hook drains it. -/
def meddled : World where
  tasks := [{
    cell := { state := .ready }
    queue := [restless]
    onEmpty := [[.push 0 (.mk "c" [] [] .success), .signalReady 0]]
    hook := some { scripts := [[.run 0]] } }]

theorem calm_of_walk {n : Nat} (h : (steps n m).stack = [])
    (hcalm : (walk n m).all (!·.hookPanics) = true) : ∀ m' ∈ m.trail, m'.hookPanics = false := by
  intro m' hmem
  rw [trail_eq_walk h] at hmem
  simpa using List.all_eq_true.mp hcalm m' hmem

theorem reentrant_restless : restless.Reentrant 0 := by
  refine .mk ?_ ?_ nofun
  · exact List.forall_mem_singleton.mpr .signalReady
  · refine List.forall_mem_cons.mpr ⟨.run, List.forall_mem_cons.mpr ⟨?_, ?_⟩⟩
    · exact .push (.mk nofun nofun nofun)
    · exact List.forall_mem_singleton.mpr .signalReady

theorem reentrant_meddled : meddled.Reentrant 0 where
  exists_task := Nat.zero_lt_one
  task :=
    { queue := List.forall_mem_singleton.mpr reentrant_restless
      onEmpty := by
        refine List.forall_mem_singleton.mpr (List.forall_mem_cons.mpr ⟨?_, ?_⟩)
        · exact .push (.mk nofun nofun nofun)
        · exact List.forall_mem_singleton.mpr .signalReady
      hook := by
        rintro _ ⟨⟩
        exact List.forall_mem_singleton.mpr (List.forall_mem_singleton.mpr .run) }

theorem drain_isolates_failures_of_meddled : meddled.Reentrant 0 ∧
    (meddled.task 0).cell.state = .ready ∧ ∃ ms m', Path 0 False (meddled.drain 0) ms m' ∧
    m'.stack = [] ∧ (∀ m ∈ ms, m.hookPanics = false) ∧
    Drained 0 False (meddled.drain 0) m' ms := by
  have hpath : Path 0 False (meddled.drain 0) _ _ := .trail (meddled.drain 0)
  have hend := run_stack (meddled.drain 0)
  have hcalm : ∀ m ∈ (meddled.drain 0).trail, m.hookPanics = false :=
    calm_of_walk (n := 64) (by decide +kernel) (by decide +kernel)
  exact ⟨reentrant_meddled, rfl, _, _, hpath, hend, hcalm,
    drain_isolates_failures reentrant_meddled rfl hpath hend hcalm⟩

example : (polls (walk 64 (meddled.drain 0))).map (·.map Item.id) =
    [some "a", some "b", none, some "c", none] := by decide +kernel

end Machine

end StoreClient.Tasks

import StoreClient.Proofs.Tasks.Reentry

/-! # The stages of a drain

One call that drains a task, with all that it sets off, where the polls of the queue, the consumer
and the failure hook come back to the task as they like (`Action.Reentrant`).

`Machine.Draining` says where such a call stands: the drain itself is at work, or a callback runs
for a poll, the consumer or the hook.  Each step leads from stage to stage
(`Machine.Draining.step`), and `Machine.Leads` keeps account of it: items reach the consumer in the
order in which polls answered them, every failure of an item is counted and shown, a raised flag
lasts until the next poll, and the call settles only after a poll that found nothing. -/

namespace StoreClient.Tasks

/-! ### What a step does -/

/-- The failure that a consumer at work has still to report. -/
def Frame.unreported : Frame → List String
  | .accepting _ item => item.ending.error?.toList
  | _ => []

/-- The failures that the calls under way have still to report. -/
def unreported (k : List Frame) : List String := k.flatMap Frame.unreported

@[simp] theorem unreported_append (fs k : List Frame) :
    unreported (fs ++ k) = unreported fs ++ unreported k := List.flatMap_append

namespace Machine

/-- What the next step answers if it is a poll of a drain. -/
def poll? (m : Machine) : Option (Option Item) :=
  match m.stack, m.mode with
  | .drain t .poll _ :: _, .running => some ((m.world.pop? t).map Prod.fst)
  | _, _ => none

/-- An action of a callback has returned: what it answers. -/
def returned? (m : Machine) : Option (Action × Answer) :=
  match m.stack, m.mode with
  | .acting a :: _, .ended (.answer answer) => some (a, answer)
  | _, _ => none

/-- What is done with the next step. -/
def doing (m : Machine) : Doings where
  taken := m.poll?.join.toList
  pushed := m.pushed
  handed := m.handed
  errors := m.failure?.toList.map Prod.snd

end Machine

/-- What is done with the next steps of some machines. -/
def doings (ms : List Machine) : Doings := (ms.map Machine.doing).foldr Doings.and {}

/-- What the polls among the next steps of some machines answer. -/
def polls (ms : List Machine) : List (Option Item) := ms.filterMap Machine.poll?

theorem doings_cons (m : Machine) (ms : List Machine) :
    doings (m :: ms) = m.doing.and (doings ms) := rfl

theorem doings_singleton (m : Machine) : doings [m] = m.doing := m.doing.and_nothing

theorem doings_append (ms ms' : List Machine) :
    doings (ms ++ ms') = (doings ms).and (doings ms') := by
  induction ms with
  | nil => rfl
  | cons m ms ih => rw [List.cons_append, doings_cons, ih, doings_cons, Doings.and_assoc]

theorem doings_taken (ms : List Machine) : (doings ms).taken = (polls ms).filterMap id := by
  induction ms with
  | nil => rfl
  | cons m ms ih =>
    rw [doings_cons, Doings.and, ih]
    cases h : m.poll? with
    | none => simp [Machine.doing, polls, h]
    | some answer => cases answer <;> simp [Machine.doing, polls, h]

theorem polls_append (ms ms' : List Machine) : polls (ms ++ ms') = polls ms ++ polls ms' :=
  List.filterMap_append

/-! ### Where a drain stands -/

namespace Drain

/-- The drain has found the queue empty, and polls once more only if a signal came. -/
def settled : Drain → Bool
  | claim | clear | poll | reclaim => false
  | release | swap | abandon => true

/-- A step that is no poll leads to a point where the task stands accordingly.  A drain that is to
poll once more, for it has not settled or the flag is raised, does not return. -/
theorem step_settled {point : Drain} {c : Cell} (h : c.state = point.holds) (hpoll : point ≠ .poll)
    (habandon : point ≠ .abandon) :
    match (point.step c).2 with
    | .goTo next => (point.step c).1.state = next.holds ∧ next ≠ .abandon ∧
        (next.settled = true → point.settled = true) ∧
        (point.settled = false ∨ c.rearmed = true →
          next.settled = false ∨ (point.step c).1.rearmed = true)
    | .done () => (point.step c).1.state = .waiting ∧ (point.step c).1.rearmed = false ∧
        point.settled = true ∧ c.rearmed = false := by
  obtain ⟨state, rearmed⟩ := c
  subst h
  cases point with
  | poll => exact absurd rfl hpoll
  | abandon => exact absurd rfl habandon
  | swap => cases rearmed <;> simp [step, Cell.clear, holds, settled]
  | claim | clear | release | reclaim => simp [step, Cell.exchange?, Cell.clear, holds, settled]

end Drain

/-- A world in which callbacks come back and the task has a state.  If the queue is plain, a poll
that finds it empty runs no callback. -/
structure World.Stands (t : Nat) (plain : Prop) (w : World) (s : TaskState) : Prop where
  reentrant : w.Reentrant t
  onEmpty : plain → (w.task t).onEmpty = []
  state : (w.task t).cell.state = s

namespace World

variable {t : Nat} {plain : Prop} {w w' : World} {s : TaskState} {c : Cell} {d : Doings}

theorem Stands.moves (h : w.Stands t plain s) (ht : w.Turns t plain w' c d) :
    w'.Stands t plain c.state where
  reentrant := ht.reentrant
  onEmpty hplain := ht.onEmpty hplain (h.onEmpty hplain)
  state := congrArg Cell.state ht.cell

theorem Stands.stays (h : w.Stands t plain s) (ht : w.Turns t plain w' (w.task t).cell d) :
    w'.Stands t plain s :=
  h.state ▸ h.moves ht

theorem Turns.queue_eq (h : w.Turns t plain w' c {}) (hplain : plain) :
    (w'.task t).queue = (w.task t).queue := by
  have := h.queue hplain
  rwa [List.nil_append, List.append_nil] at this

end World

/-- What a drain waits for: a queue that hands an item out, its consumer, or the hook. -/
def Frame.Awaited (t : Nat) : Frame → Prop
  | .handing task item => task = t ∧ item.Reentrant t
  | .accepting task _ => task = t
  | .ending _ => True
  | _ => False

/-- How far a drain has come. -/
structure Stage where
  /-- It has found the queue empty, and polls once more only if a signal came. -/
  settled : Bool
  /-- A word that counts the items that it has taken. -/
  taken : UInt64

namespace Machine

/-- Where the run of a drain stands. -/
inductive Draining (t : Nat) (plain : Prop) : Machine → Stage → Prop where
  /-- The drain itself is at work, or a panic of the hook has come to it. -/
  | own {w : World} {point : Drain} {taken : UInt64} {mode : Mode} : w.Stands t plain point.holds →
    point ≠ .abandon → (plain → point.settled = true → (w.task t).queue = []) →
    (mode.panics = true → point = .poll) →
    Draining t plain ⟨w, [.drain t point taken], mode⟩ ⟨point.settled, taken⟩
  /-- A poll found nothing, and its callback is at work. -/
  | emptied {w : World} {fs : List Frame} {taken : UInt64} {mode : Mode} : ¬plain →
    w.Stands t plain .running → Callback t (w.task t).cell fs mode →
    Draining t plain ⟨w, fs ++ [.drain t .release taken], mode⟩ ⟨true, taken⟩
  /-- The queue, the consumer or the hook is at work. -/
  | serving {w : World} {fs : List Frame} {base : Frame} {taken : UInt64} {mode : Mode} :
    w.Stands t plain .running → Callback t (w.task t).cell fs mode → base.Awaited t →
    Draining t plain ⟨w, fs ++ [base, .drain t .poll taken], mode⟩ ⟨false, taken⟩
  | returned {w : World} {taken : UInt64} : w.Stands t plain .waiting →
    (w.task t).cell.rearmed = false → (plain → (w.task t).queue = []) →
    Draining t plain ⟨w, [], .ended (.answer (.count taken.toNat))⟩ ⟨true, taken⟩
  | unwound {w : World} {taken : UInt64} {p : Payload} : w.Stands t plain .waiting →
    Draining t plain ⟨w, [], .ended (.panic p)⟩ ⟨false, taken⟩

theorem Draining.serving_script {t : Nat} {plain : Prop} {w : World} {script : List Action}
    {base : Frame} {taken : UInt64} (h : w.Stands t plain .running)
    (hscript : ∀ a ∈ script, a.Reentrant t) (hbase : base.Awaited t) :
    Draining t plain ⟨w, [.script script, base, .drain t .poll taken], .running⟩
      ⟨false, taken⟩ := by
  have hserving : Draining t plain ⟨w, [.script script] ++ [base, .drain t .poll taken], .running⟩
      ⟨false, taken⟩ := .serving h (.acts hscript) hbase
  exact hserving

/-- Steps from a stage of a drain to another keep account of what is done. -/
structure Leads (t : Nat) (plain : Prop) (s s' : Stage) (m m' : Machine) (ms : List Machine) :
    Prop where
  taken : s'.taken = s.taken + UInt64.ofNat (doings ms).taken.length
  /-- What settles a drain is a poll that finds nothing. -/
  settles : s'.settled = true → s.settled = true ∧ polls ms = [] ∨ (polls ms).getLast? = some none
  /-- A drain that is to poll once more does so, or is still to do it. -/
  wakes : s.settled = false ∨ (m.world.task t).cell.rearmed = true →
    polls ms ≠ [] ∨ s'.settled = false ∨ (m'.world.task t).cell.rearmed = true
  /-- Nothing but the hook panics. -/
  panics : m'.mode.panics = (m.mode.panics || ms.any hookPanics)
  turns : m.world.Turns t plain m'.world (m'.world.task t).cell (doings ms)
  /-- The items that polls answer reach the consumer in order. -/
  handed : inFlight m.stack ++ (doings ms).taken = (doings ms).handed ++ inFlight m'.stack
  /-- The consumer's failures are counted in order. -/
  reported : unreported m.stack ++ (doings ms).handed.filterMap (·.ending.error?) =
    (doings ms).errors ++ unreported m'.stack

/-- A step leads to a stage again. -/
def Goes (t : Nat) (plain : Prop) (s : Stage) (m m' : Machine) : Prop :=
  ∃ s', m'.Draining t plain s' ∧ Leads t plain s s' m m' [m]

section

variable {t : Nat} {plain : Prop} {s s' : Stage} {w : World} {m m' : Machine} {mode : Mode}
  {taken : UInt64}

theorem Leads.of_not_poll {c : Cell} (hpoll : m.poll? = none) (htaken : s'.taken = s.taken)
    (hsettles : s'.settled = true → s.settled = true)
    (hwakes : s.settled = false ∨ (m.world.task t).cell.rearmed = true →
      s'.settled = false ∨ c.rearmed = true)
    (hpanics : m'.mode.panics = (m.mode.panics || m.hookPanics))
    (hturns : m.world.Turns t plain m'.world c m.doing)
    (hhanded : inFlight m.stack = m.doing.handed ++ inFlight m'.stack)
    (hreported : unreported m.stack ++ m.doing.handed.filterMap (·.ending.error?) =
      m.doing.errors ++ unreported m'.stack) : Leads t plain s s' m m' [m] := by
  have hnone : m.doing.taken = [] := by simp [doing, hpoll]
  constructor
  · simp [doings_singleton, hnone, htaken]
  · intro h
    exact .inl ⟨hsettles h, by simp [polls, hpoll]⟩
  · intro h
    rw [hturns.cell]
    exact .inr (hwakes h)
  · simpa using hpanics
  · rw [doings_singleton, hturns.cell]
    exact hturns
  · rw [doings_singleton, hnone, List.append_nil]
    exact hhanded
  · rw [doings_singleton]
    exact hreported

/-- A step that does none of what is kept account of. -/
theorem Leads.of_nothing {c : Cell} (hpoll : m.poll? = none) (hdoing : m.doing = {})
    (htaken : s'.taken = s.taken) (hsettles : s'.settled = true → s.settled = true)
    (hwakes : s.settled = false ∨ (m.world.task t).cell.rearmed = true →
      s'.settled = false ∨ c.rearmed = true)
    (hpanics : m'.mode.panics = (m.mode.panics || m.hookPanics))
    (hturns : m.world.Turns t plain m'.world c {})
    (hhanded : inFlight m.stack = inFlight m'.stack)
    (hreported : unreported m.stack = unreported m'.stack) : Leads t plain s s' m m' [m] := by
  apply Leads.of_not_poll hpoll htaken hsettles hwakes hpanics
  · exact hdoing ▸ hturns
  · rw [hdoing]
    exact hhanded
  · rw [hdoing]
    exact (List.append_nil _).trans hreported

/-- A call that waits for one inside it goes on when that has returned. -/
theorem Leads.of_answered {k : List Frame} {a : Answer} (hw : w.Reentrant t) :
    Leads t plain s s ⟨w, k, .ended (.answer a)⟩ ⟨w, k, .running⟩ [⟨w, k, .ended (.answer a)⟩] := by
  have hpoll : poll? ⟨w, k, .ended (.answer a)⟩ = none := by
    unfold poll?
    split <;> simp_all
  have hfailure : failure? ⟨w, k, .ended (.answer a)⟩ = none := by
    unfold failure?
    split <;> simp_all
  have hdoing : doing ⟨w, k, .ended (.answer a)⟩ = {} := by
    simp only [doing, hpoll, hfailure]
    cases k <;> rfl
  have hhook : hookPanics ⟨w, k, .ended (.answer a)⟩ = false := by
    simp only [hookPanics, hfailure]
    split <;> first | rfl | simp_all
  apply Leads.of_nothing hpoll hdoing rfl id id
  · rw [hhook]
    rfl
  · exact hw.turns_refl
  · rfl
  · rfl

theorem goes_of_advanceDrain {point : Drain} (h : w.Stands t plain point.holds)
    (habandon : point ≠ .abandon)
    (hempty : plain → point.settled = true → (w.task t).queue = []) (hpoll : point ≠ .poll) :
    Goes t plain ⟨point.settled, taken⟩ ⟨w, [.drain t point taken], .running⟩
      (w.advanceDrain [] t point taken) := by
  have ht : w.Turns t plain _ _ {} := h.reentrant.turns_setCell (point.step (w.task t).cell).1
  have hstep := Drain.step_settled h.state hpoll habandon
  have hpoll? : poll? ⟨w, [.drain t point taken], .running⟩ = none := by
    cases point with
    | poll => exact absurd rfl hpoll
    | claim | clear | release | swap | reclaim | abandon => rfl
  have hdoing : doing ⟨w, [.drain t point taken], .running⟩ = {} := by
    simp only [doing, hpoll?]
    rfl
  simp only [World.advanceDrain]
  split
  · next next hp =>
    rw [hp] at hstep
    obtain ⟨hstate, hnext, hsettled, hwakes⟩ := hstep
    refine ⟨⟨next.settled, taken⟩, ?_, ?_⟩
    · refine .own (hstate ▸ h.moves ht) hnext ?_ (by rintro ⟨⟩)
      intro hplain hs
      exact (ht.queue_eq hplain).trans (hempty hplain (hsettled hs))
    · exact .of_nothing hpoll? hdoing rfl hsettled hwakes rfl ht rfl rfl
  · next hp =>
    rw [hp] at hstep
    obtain ⟨hstate, hlowered, hsettled, hcalm⟩ := hstep
    refine ⟨⟨true, taken⟩, ?_, ?_⟩
    · refine .returned (hstate ▸ h.moves ht) ((congrArg Cell.rearmed ht.cell).trans hlowered) ?_
      intro hplain
      exact (ht.queue_eq hplain).trans (hempty hplain hsettled)
    · refine .of_nothing hpoll? hdoing rfl (fun _ => hsettled) ?_ rfl ht rfl rfl
      intro hdue
      simp [hsettled, hcalm] at hdue

theorem Leads.of_poll {c : Cell} {answer : Option Item} (hpop : (w.pop? t).map Prod.fst = answer)
    (htaken : s'.taken = s.taken + UInt64.ofNat answer.toList.length)
    (hsettles : s'.settled = true → answer = none) (hpanics : m'.mode.panics = false)
    (hturns : w.Turns t plain m'.world c { taken := answer.toList })
    (hhanded : answer.toList = inFlight m'.stack) (hreported : unreported m'.stack = []) :
    Leads t plain s s' ⟨w, [.drain t .poll taken], .running⟩ m'
      [⟨w, [.drain t .poll taken], .running⟩] := by
  have hpoll : poll? ⟨w, [.drain t .poll taken], .running⟩ = some answer := congrArg some hpop
  have hdoing : doing ⟨w, [.drain t .poll taken], .running⟩ = { taken := answer.toList } := by
    simp only [doing, hpoll]
    rfl
  have hpolls : polls [⟨w, [.drain t .poll taken], .running⟩] = [answer] := by
    simp [polls, hpoll]
  constructor
  · rw [doings_singleton, hdoing]
    exact htaken
  · intro hs
    rw [hpolls, hsettles hs]
    exact .inr rfl
  · intro _
    rw [hpolls]
    exact .inl nofun
  · exact hpanics
  · rw [doings_singleton, hdoing, hturns.cell]
    exact hturns
  · rw [doings_singleton, hdoing]
    exact hhanded
  · rw [doings_singleton, hdoing, hreported]
    rfl

theorem goes_of_poll (h : w.Stands t plain .running) :
    Goes t plain ⟨false, taken⟩ ⟨w, [.drain t .poll taken], .running⟩
      (w.advance [] (.drain t .poll taken)) := by
  simp only [World.advance]
  split
  · next item w' hpop =>
    obtain ⟨hitem, ht⟩ := h.reentrant.turns_pop? hpop
    have hsome : (w.pop? t).map Prod.fst = some item := by rw [hpop]; rfl
    refine ⟨⟨false, taken + 1⟩, ?_, ?_⟩
    · exact .serving_script (h.stays ht) hitem.onPoll ⟨rfl, hitem⟩
    · exact .of_poll hsome rfl (by rintro ⟨⟩) rfl ht rfl rfl
  · next hpop =>
    have hnone : (w.pop? t).map Prod.fst = none := by rw [hpop]; rfl
    split
    · next script w' htake =>
      obtain ⟨hne, hscript, ht⟩ := h.reentrant.turns_takeOnEmpty htake
      refine ⟨⟨true, taken⟩, ?_, ?_⟩
      · have hemptied : Draining t plain
            ⟨w', [.script script] ++ [.drain t .release taken], .running⟩ ⟨true, taken⟩ :=
          .emptied (fun hplain => hne (h.onEmpty hplain)) (h.stays ht) (.acts hscript)
        exact hemptied
      · exact .of_poll hnone (UInt64.add_zero _).symm (fun _ => rfl) rfl ht rfl rfl
    · refine ⟨⟨true, taken⟩, ?_, ?_⟩
      · exact .own h (by rintro ⟨⟩) (fun _ _ => World.queue_eq_nil_of_pop? hpop) (by rintro ⟨⟩)
      · exact .of_poll hnone (UInt64.add_zero _).symm (fun _ => rfl) rfl h.reentrant.turns_refl rfl
          rfl

/-- The drain goes on, or a panic of the hook unwinds it. -/
theorem goes_of_own {point : Drain} (h : w.Stands t plain point.holds) (habandon : point ≠ .abandon)
    (hempty : plain → point.settled = true → (w.task t).queue = [])
    (hpanics : mode.panics = true → point = .poll) :
    Goes t plain ⟨point.settled, taken⟩ ⟨w, [.drain t point taken], mode⟩
      (step ⟨w, [.drain t point taken], mode⟩) := by
  cases mode with
  | running =>
    cases point with
    | poll => exact goes_of_poll h
    | claim | clear | release | swap | reclaim | abandon =>
      exact goes_of_advanceDrain h habandon hempty nofun
  | ended r =>
    cases r with
    | answer a =>
      exact ⟨_, .own h habandon hempty nofun, .of_answered h.reentrant⟩
    | panic p =>
      obtain rfl : point = .poll := hpanics rfl
      have ht : w.Turns t plain _ _ {} :=
        h.reentrant.turns_setCell (Drain.abandon.step (w.task t).cell).1
      have hstate : (Drain.abandon.step (w.task t).cell).1.state = .waiting := by
        have : (w.task t).cell.state = .running := h.state
        simp [Drain.step, Cell.exchange?, this]
      refine ⟨⟨false, taken⟩, .unwound (hstate ▸ h.moves ht), ?_⟩
      exact .of_nothing rfl rfl rfl id (fun _ => .inl rfl) rfl ht rfl rfl

end

end Machine

/-! ### What a drain waits for -/

namespace Callback

variable {t : Nat} {c : Cell} {fs : List Frame} {mode : Mode}

/-- The next step of a callback is none of the drain's own. -/
theorem step_beside (h : Callback t c fs mode) (hfs : fs ≠ []) (w : World) (k : List Frame) :
    Machine.poll? ⟨w, fs ++ k, mode⟩ = none ∧
      Machine.doing ⟨w, fs ++ k, mode⟩ = { pushed := Machine.pushed ⟨w, fs ++ k, mode⟩ } ∧
      Machine.hookPanics ⟨w, fs ++ k, mode⟩ = false := by
  cases h with
  | idle => exact absurd rfl hfs
  | acts | acted | signals | drains => exact ⟨rfl, rfl, rfl⟩

theorem turnedAway (h : Callback t c fs mode) (hfs : fs ≠ []) {w : World} {k : List Frame}
    {a : Action} {answer : Answer}
    (hreturned : Machine.returned? ⟨w, fs ++ k, mode⟩ = some (a, answer)) :
    a.TurnedAway c answer := by
  cases h with
  | idle => exact absurd rfl hfs
  | acted haway =>
    cases hreturned
    exact haway
  | acts | signals | drains => cases hreturned

theorem inFlight_eq_nil (h : Callback t c fs mode) : inFlight fs = [] := by
  cases h <;> rfl

theorem unreported_eq_nil (h : Callback t c fs mode) : unreported fs = [] := by
  cases h <;> rfl

end Callback

namespace Machine

section

variable {t : Nat} {plain : Prop} {s : Stage} {w : World} {mode : Mode} {taken : UInt64}

theorem goes_of_callback {fs k : List Frame} (h : w.Stands t plain .running)
    (hfs : Callback t (w.task t).cell fs mode) (hne : fs ≠ [])
    (hstage : ∀ {w' : World} {fs' : List Frame} {mode' : Mode}, w'.Stands t plain .running →
      Callback t (w'.task t).cell fs' mode' → Draining t plain ⟨w', fs' ++ k, mode'⟩ s) :
    Goes t plain s ⟨w, fs ++ k, mode⟩ (step ⟨w, fs ++ k, mode⟩) := by
  obtain ⟨w', fs', mode', c, hm, ht, hrun, hraised, hfs'⟩ := hfs.step h.reentrant h.state hne k
  obtain ⟨hpoll, hdoing, hhook⟩ := hfs.step_beside hne w k
  rw [hm]
  have hstands : w'.Stands t plain .running := hrun ▸ h.moves ht
  refine ⟨s, hstage hstands (ht.cell.symm ▸ hfs'), ?_⟩
  apply Leads.of_not_poll hpoll rfl id
  · exact Or.imp_right hraised
  · rw [hhook, hfs.panics_eq_false]
    exact hfs'.panics_eq_false
  · exact hdoing ▸ ht
  · rw [hdoing, inFlight_append, inFlight_append, hfs.inFlight_eq_nil, hfs'.inFlight_eq_nil]
    rfl
  · rw [hdoing, unreported_append, unreported_append, hfs.unreported_eq_nil,
      hfs'.unreported_eq_nil]
    exact List.append_nil _

theorem goes_of_handing {item : Item} (h : w.Stands t plain .running) (hitem : item.Reentrant t) :
    Goes t plain ⟨false, taken⟩ ⟨w, [.handing t item, .drain t .poll taken], .running⟩
      (step ⟨w, [.handing t item, .drain t .poll taken], .running⟩) := by
  have ht : w.Turns t plain _ _ _ := h.reentrant.turns_accepted item
  have hm : step ⟨w, [.handing t item, .drain t .poll taken], .running⟩ =
      ⟨w.note (.accepted t item.id), [.script item.onAccept] ++
        [.accepting t item, .drain t .poll taken], .running⟩ := by
    simp [step, World.advance, hitem.polled_eq, World.enter]
  rw [hm]
  refine ⟨⟨false, taken⟩, .serving (h.stays ht) (.acts hitem.onAccept) rfl, ?_⟩
  apply Leads.of_not_poll rfl rfl id (fun _ => .inl rfl) rfl ht rfl
  cases he : item.ending.error? <;>
    simp [unreported, Frame.unreported, doing, handed, Frame.handed, failure?, he]

theorem draining_next_poll (h : w.Stands t plain .running) :
    Draining t plain ⟨w, [.drain t .poll taken], mode⟩ ⟨false, taken⟩ :=
  .own h nofun nofun fun _ => rfl

theorem goes_of_success {item : Item} (h : w.Stands t plain .running)
    (he : item.ending.error? = none) :
    Goes t plain ⟨false, taken⟩ ⟨w, [.accepting t item, .drain t .poll taken], .running⟩
      (step ⟨w, [.accepting t item, .drain t .poll taken], .running⟩) := by
  have hm : step ⟨w, [.accepting t item, .drain t .poll taken], .running⟩ =
      ⟨w, [.drain t .poll taken], .ended (.answer .nothing)⟩ := by
    cases hi : item.ending <;> simp_all [step, World.advance, World.answer, Ending.error?]
  have hfailure : failure? ⟨w, [.accepting t item, .drain t .poll taken], .running⟩ = none := by
    simp [failure?, he]
  have hdoing : doing ⟨w, [.accepting t item, .drain t .poll taken], .running⟩ = {} := by
    simp only [doing, hfailure]
    rfl
  rw [hm]
  refine ⟨⟨false, taken⟩, draining_next_poll h, ?_⟩
  apply Leads.of_nothing rfl hdoing rfl id (fun _ => .inl rfl)
  · simp [hookPanics, hfailure, Mode.panics]
  · exact h.reentrant.turns_refl
  · rfl
  · simp [unreported, Frame.unreported, he]

theorem goes_of_failure {item : Item} {error : String} (h : w.Stands t plain .running)
    (he : item.ending.error? = some error) :
    Goes t plain ⟨false, taken⟩ ⟨w, [.accepting t item, .drain t .poll taken], .running⟩
      (step ⟨w, [.accepting t item, .drain t .poll taken], .running⟩) := by
  have hm : step ⟨w, [.accepting t item, .drain t .poll taken], .running⟩ =
      w.fail t error [.drain t .poll taken] := by
    cases hi : item.ending <;> simp_all [step, World.advance, Ending.error?]
  have hfailure : failure? ⟨w, [.accepting t item, .drain t .poll taken], .running⟩ =
      some (t, error) := by
    simp [failure?, he]
  have hdoing : doing ⟨w, [.accepting t item, .drain t .poll taken], .running⟩ =
      { errors := [error] } := by
    simp only [doing, hfailure]
    rfl
  have hhook : hookPanics ⟨w, [.accepting t item, .drain t .poll taken], .running⟩ =
      w.hookPanics t error := by
    simp only [hookPanics, hfailure]
  obtain ⟨w', ht, hfail⟩ := h.reentrant.fail error [.drain t .poll taken]
  have hleads {fs : List Frame} {mode : Mode} (hmode : mode.panics = w.hookPanics t error)
      (hflight : inFlight fs = []) (hunreported : unreported fs = []) :
      Leads t plain ⟨false, taken⟩ ⟨false, taken⟩
        ⟨w, [.accepting t item, .drain t .poll taken], .running⟩ ⟨w', fs, mode⟩
        [⟨w, [.accepting t item, .drain t .poll taken], .running⟩] := by
    apply Leads.of_not_poll rfl rfl id (fun _ => .inl rfl)
    · rw [hhook]
      exact hmode
    · exact hdoing ▸ ht
    · rw [hdoing, hflight]
      rfl
    · rw [hunreported]
      simp [hdoing, unreported, Frame.unreported, he]
  rw [hm]
  rcases hfail with ⟨script, r, hfail, hscript, hcalm⟩ | ⟨r, hfail, hr⟩
  · rw [hfail]
    exact ⟨_, .serving_script (h.stays ht) hscript trivial, hleads hcalm.symm rfl rfl⟩
  · rw [hfail]
    exact ⟨_, draining_next_poll (h.stays ht), hleads hr rfl rfl⟩

/-- The queue, the consumer or the hook goes on after its callback. -/
theorem goes_of_awaited {base : Frame} (h : w.Stands t plain .running)
    (hmode : mode.panics = false) (hbase : base.Awaited t) :
    Goes t plain ⟨false, taken⟩ ⟨w, [base, .drain t .poll taken], mode⟩
      (step ⟨w, [base, .drain t .poll taken], mode⟩) := by
  rcases mode with - | ⟨a | p⟩
  · cases base with
    | handing task item =>
      obtain ⟨rfl, hitem⟩ := hbase
      exact goes_of_handing h hitem
    | accepting task item =>
      obtain rfl : task = t := hbase
      cases he : item.ending.error? with
      | none => exact goes_of_success h he
      | some error => exact goes_of_failure h he
    | ending r =>
      refine ⟨⟨false, taken⟩, draining_next_poll h, ?_⟩
      exact .of_nothing rfl rfl rfl id id rfl h.reentrant.turns_refl rfl rfl
    | _ => exact hbase.elim
  · have hm : step ⟨w, [base, .drain t .poll taken], .ended (.answer a)⟩ =
        ⟨w, [base, .drain t .poll taken], .running⟩ := by
      cases base with
      | handing | accepting | ending => rfl
      | _ => exact hbase.elim
    rw [hm]
    have hserving : Draining t plain ⟨w, [] ++ [base, .drain t .poll taken], .running⟩
        ⟨false, taken⟩ := .serving h (.idle rfl) hbase
    exact ⟨_, hserving, .of_answered h.reentrant⟩
  · cases hmode

theorem Draining.step {m : Machine} (h : m.Draining t plain s) (hstack : m.stack ≠ []) :
    Goes t plain s m m.step := by
  cases h with
  | own h habandon hempty hpanics => exact goes_of_own h habandon hempty hpanics
  | @emptied w fs taken mode hfree h hfs =>
    by_cases hne : fs = []
    · subst hne
      have hheld : w.Stands t plain Drain.release.holds := h
      refine goes_of_own hheld nofun ?_ ?_
      · intro hplain
        exact absurd hplain hfree
      · rw [hfs.panics_eq_false]
        nofun
    · exact goes_of_callback h hfs hne (.emptied hfree)
  | @serving w fs base taken mode h hfs hbase =>
    by_cases hne : fs = []
    · subst hne
      exact goes_of_awaited h hfs.panics_eq_false hbase
    · exact goes_of_callback h hfs hne (.serving · · hbase)
  | returned => exact absurd rfl hstack
  | unwound => exact absurd rfl hstack

end

end Machine

end StoreClient.Tasks

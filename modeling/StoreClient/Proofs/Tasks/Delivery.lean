import StoreClient.Proofs.Tasks.Callbacks

/-! # Deliveries

While a task is drained only by watchers with inline executors, an action of the outermost caller
finds it idle.  A signal then begins a drain; whatever the consumer and the hook set off runs above
that drain, and their signals only raise its flag.  So there is at most one drain on the stack, and
`Machine.Staged` says where it stands: every step leads from stage to stage, hands items on in the
order in which they came (`Machine.Staged.step`), and the drain gives the task back only where it
found the queue empty.

After an action that reaches a watcher the queue is therefore empty and the consumer was handed
everything (`Session.delivered_of_rouses`). -/

namespace StoreClient.Tasks

/-! ### Runs with their past -/

/-- The item that the next step of a call hands to the consumer. -/
def Frame.handed : Frame → List Item
  | .handing _ item => [item]
  | _ => []

/-- The items that the calls under way took from a queue and have not handed to the consumer. -/
def inFlight (k : List Frame) : List Item := k.flatMap Frame.handed

@[simp] theorem inFlight_cons (f : Frame) (k : List Frame) :
    inFlight (f :: k) = f.handed ++ inFlight k := rfl

@[simp] theorem inFlight_append (fs k : List Frame) :
    inFlight (fs ++ k) = inFlight fs ++ inFlight k := List.flatMap_append

/-- The failure that a consumer's ending is reported as. -/
def Ending.error? : Ending → Option String
  | .failure text => some text
  | .panic p => some (World.caught p)
  | _ => none

namespace Machine

/-- The items that the next step puts into a queue. -/
def pushed (m : Machine) : List Item :=
  match m.stack, m.mode with
  | f :: _, .running => f.pushed
  | _, _ => []

/-- The item that the next step hands to the consumer. -/
def handed (m : Machine) : List Item :=
  match m.stack, m.mode with
  | f :: _, .running => f.handed
  | _, _ => []

/-- The failure of a consumer that the next step reports: its own, or the panic of an action. -/
def failure? (m : Machine) : Option (Nat × String) :=
  match m.stack, m.mode with
  | .accepting t item :: _, .running => item.ending.error?.map (t, ·)
  | .accepting t _ :: _, .ended (.panic p) => some (t, World.caught p)
  | _, _ => none

/-- A panic leaves the failure hook with the next step: that of the hook, or of an action of its
callback.  Nothing but a hook ends by such a call where queues run no callback. -/
def hookPanics (m : Machine) : Bool :=
  match m.failure? with
  | some (t, error) => m.world.hookPanics t error
  | none => match m.stack, m.mode with
    | .ending r :: _, .running => (Mode.ended r).panics
    | .ending _ :: _, mode => mode.panics
    | _, _ => false

/-- The machines that a run goes through. -/
def trail (m : Machine) : List Machine :=
  if m.stack = [] then [m] else m :: m.step.trail
termination_by (m.budget, m.heat)
decreasing_by exact m.step_decreases ‹_›

/-- What a task owes its consumer: the items that were taken for it, and those in the queue. -/
def owed (t : Nat) (m : Machine) : List Item := inFlight m.stack ++ (m.world.task t).queue

/-! A run that is known to end within some steps is computed by `steps` and `walk`. -/

def steps : Nat → Machine → Machine
  | 0, m => m
  | n + 1, m => steps n m.step

/-- The machines that so many steps go through, up to the end of the run. -/
def walk : Nat → Machine → List Machine
  | 0, m => [m]
  | n + 1, m => if m.stack = [] then [m] else m :: walk n m.step

variable {m : Machine} {n : Nat}

theorem steps_of_stack_eq_nil (h : m.stack = []) (n : Nat) : steps n m = m := by
  have hstep : m.step = m := by simp only [step, h]
  induction n with
  | zero => rfl
  | succ n ih => rw [steps, hstep, ih]

theorem run_eq_steps (h : (steps n m).stack = []) : m.run = steps n m := by
  induction n generalizing m with
  | zero => exact (run.eq_def m).trans (if_pos h)
  | succ n ih =>
    rw [run]
    split
    · next hstack => exact (steps_of_stack_eq_nil hstack (n + 1)).symm
    · exact ih h

theorem trail_eq_walk (h : (steps n m).stack = []) : m.trail = walk n m := by
  induction n generalizing m with
  | zero => exact (trail.eq_def m).trans (if_pos h)
  | succ n ih =>
    rw [trail, walk]
    split
    · rfl
    · exact congrArg (m :: ·) (ih h)

end Machine

/-! ### Where a drain stands -/

namespace Drain

/-- Where the task stands when a drain comes to a point. -/
def holds : Drain → TaskState
  | claim => .ready
  | clear | poll | release => .running
  | swap | reclaim | abandon => .waiting

def found : Drain → Bool
  | claim | clear | poll => false
  | release | swap | reclaim | abandon => true

/-- A step that is no poll leads to a point where the task stands accordingly, and a drain returns
from an idle task whose queue it found empty. -/
theorem step_holds {point : Drain} {c : Cell} (h : c.state = point.holds) (hpoll : point ≠ .poll) :
    match (point.step c).2 with
    | .goTo next => (point.step c).1.state = next.holds ∧ (next.found = true → point.found = true)
    | .done () => (point.step c).1.state = .waiting ∧ point.found = true := by
  obtain ⟨state, rearmed⟩ := c
  subst h
  cases point with
  | poll => exact absurd rfl hpoll
  | swap => cases rearmed <;> simp [step, Cell.clear, holds, found]
  | claim | clear | release | reclaim | abandon =>
    simp [step, Cell.exchange?, Cell.clear, holds, found]

end Drain

/-- What a drain waits for: its consumer, or the hook. -/
def Frame.Served (t : Nat) : Frame → Prop
  | .accepting task _ => task = t
  | .ending _ => True
  | _ => False

/-- A stack without a drain, on which everything was set off by the outermost caller. -/
inductive Outside (t : Nat) (w : World) : List Frame → Prop where
  | bottom : Outside t w [.settling none]
  | call {f : Frame} {k : List Frame} : f.Outer t w → Outside t w k → Outside t w (f :: k)

namespace Outside

variable {t : Nat} {w w' : World} {k : List Frame}

theorem mono (hw : ∀ l, w.Hears t l → w'.Hears t l) (h : Outside t w k) : Outside t w' k := by
  induction h with
  | bottom => exact .bottom
  | call hf _ ih => exact .call (hf.mono hw) ih

theorem append {fs : List Frame} (hfs : ∀ f ∈ fs, f.Outer t w) (h : Outside t w k) :
    Outside t w (fs ++ k) := by
  induction fs with
  | nil => exact h
  | cons f fs ih =>
    obtain ⟨hf, hfs⟩ := List.forall_mem_cons.mp hfs
    exact .call hf (ih hfs)

end Outside

theorem Frame.Inner.handed_eq_nil {t : Nat} {w : World} {f : Frame} (h : f.Inner t w) :
    f.handed = [] := by
  cases f with
  | handing => exact h.elim False.elim False.elim
  | _ => rfl

theorem Frame.Served.handed_eq_nil {t : Nat} {f : Frame} (h : f.Served t) : f.handed = [] := by
  cases f with
  | handing => exact h.elim
  | _ => rfl

theorem inFlight_of_inner {t : Nat} {w : World} {fs : List Frame} (h : ∀ f ∈ fs, f.Inner t w) :
    inFlight fs = [] :=
  List.flatMap_eq_nil_iff.mpr fun f hf => (h f hf).handed_eq_nil

theorem Outside.inFlight_eq_nil {t : Nat} {w : World} {k : List Frame} (h : Outside t w k) :
    inFlight k = [] := by
  induction h with
  | bottom => rfl
  | @call f k hf _ ih => exact List.append_eq_nil_iff.mpr ⟨Frame.Inner.handed_eq_nil (.inr hf), ih⟩

/-- An orderly world, and what the outermost caller set off, while the task has a state. -/
structure Ground (t : Nat) (w : World) (k : List Frame) (s : TaskState) : Prop where
  orderly : w.Orderly t
  outside : Outside t w k
  state : (w.task t).cell.state = s

namespace Ground

variable {t : Nat} {w w' : World} {k : List Frame} {s s' : TaskState} {queue : List Item}
  {accepted : List String}

theorem moves (h : Ground t w k s) (hb : w.Becomes t w' s' queue accepted) : Ground t w' k s' :=
  ⟨hb.orderly, h.outside.mono hb.hears, hb.state⟩

theorem stays (h : Ground t w k s)
    (hb : w.Becomes t w' (w.task t).cell.state queue accepted) : Ground t w' k s :=
  h.moves (h.state ▸ hb)

theorem call {f : Frame} (h : Ground t w k s) (hf : f.Outer t w) : Ground t w (f :: k) s :=
  { h with outside := .call hf h.outside }

end Ground

namespace Machine

/-- Where a run stands that an outermost caller began, with at most one drain of the task.  If the
caller's action is due to reach a watcher, then while no drain has the task either the queue is
empty or a signal is still to come. -/
inductive Staged (t : Nat) (due : Prop) : Machine → Prop where
  /-- No drain is under way. -/
  | idle {w : World} {k : List Frame} {mode : Mode} : Ground t w k .waiting →
    (due → mode.panics = false ∧ ((w.task t).queue = [] ∨ ∃ f ∈ k, f.rouses = true)) →
    Staged t due ⟨w, k, mode⟩
  /-- The drain itself is at work. -/
  | draining {w : World} {point : Drain} {taken : UInt64} {k : List Frame} {mode : Mode} :
    Ground t w k point.holds → (point.found = true → (w.task t).queue = []) →
    mode.panics = false → Staged t due ⟨w, .drain t point taken :: k, mode⟩
  /-- The queue hands an item out, and runs at most an empty callback before. -/
  | handing {w : World} {pre : List Frame} {item : Item} {taken : UInt64} {k : List Frame}
    {mode : Mode} : Ground t w k .running → item.Orderly t → pre = [] ∨ pre = [.script []] →
    mode.panics = false →
    Staged t due ⟨w, pre ++ .handing t item :: .drain t .poll taken :: k, mode⟩
  /-- The consumer or the hook is at work above the drain. -/
  | serving {w : World} {fs : List Frame} {base : Frame} {taken : UInt64} {k : List Frame}
    {mode : Mode} : Ground t w k .running → (∀ f ∈ fs, f.Inner t w) → base.Served t →
    Staged t due ⟨w, fs ++ base :: .drain t .poll taken :: k, mode⟩
  /-- The caller's action has ended. -/
  | closing {w : World} {r : Result} : w.Orderly t → (w.task t).cell.state = .waiting →
    (due → (Mode.ended r).panics = false ∧ (w.task t).queue = []) →
    Staged t due ⟨w, [.settling (some r)], .running⟩
  | closed {w : World} {r : Result} : w.Orderly t → (w.task t).cell.state = .waiting →
    (due → (Mode.ended r).panics = false ∧ (w.task t).queue = []) → Staged t due ⟨w, [], .ended r⟩

/-- What is owed goes on in order: the items handed over leave it in front, the pushed ones join it
at the end.  The notes tell what was handed over. -/
structure Ledger (t : Nat) (m m' : Machine) (handed pushed : List Item) : Prop where
  owed : handed ++ m'.owed t = m.owed t ++ pushed
  accepted : m'.world.accepted t = m.world.accepted t ++ handed.map Item.id

/-- A step leads to a stage again, and the ledger is kept. -/
structure Follows (t : Nat) (due : Prop) (m m' : Machine) : Prop where
  staged : m'.Staged t due
  ledger : Ledger t m m' m.handed m.pushed

theorem Ledger.trans {t : Nat} {m m₁ m₂ : Machine} {handed handed' pushed pushed' : List Item}
    (h : Ledger t m m₁ handed pushed) (h' : Ledger t m₁ m₂ handed' pushed') :
    Ledger t m m₂ (handed ++ handed') (pushed ++ pushed') where
  owed := by rw [List.append_assoc, h'.owed, ← List.append_assoc, h.owed, List.append_assoc]
  accepted := by rw [h'.accepted, h.accepted, List.map_append, List.append_assoc]

variable {t : Nat} {due : Prop} {w : World} {k : List Frame} {mode : Mode}

/-- Nothing is handed over or pushed, and nothing is in flight before or after. -/
theorem follows_of_owed_eq {m m' : Machine} (hstaged : m'.Staged t due) (hhanded : m.handed = [])
    (hpushed : m.pushed = []) (howed : m'.owed t = m.owed t)
    (haccepted : m'.world.accepted t = m.world.accepted t) : Follows t due m m' := by
  refine ⟨hstaged, ?_, ?_⟩
  · rw [hhanded, hpushed, howed, List.nil_append, List.append_nil]
  · rw [hhanded, haccepted, List.map_nil, List.append_nil]

theorem follows_of_idle (h : Ground t w k .waiting)
    (hdue : due → mode.panics = false ∧ ((w.task t).queue = [] ∨ ∃ f ∈ k, f.rouses = true)) :
    Follows t due ⟨w, k, mode⟩ (step ⟨w, k, mode⟩) := by
  obtain ⟨hw, hk, hs⟩ := h
  cases hk with
  | bottom =>
    have hempty : due → mode.panics = false ∧ (w.task t).queue = [] :=
      fun hd => (hdue hd).imp_right (Or.resolve_right · (by simp [Frame.rouses]))
    cases mode with
    | running =>
      have : step ⟨w, [.settling none], .running⟩ = ⟨w, [], .ended (.answer .nothing)⟩ := by
        simp [step, World.advance, hw.spawned]
      rw [this]
      exact follows_of_owed_eq (.closed hw hs fun hd => ⟨rfl, (hempty hd).2⟩) rfl rfl rfl rfl
    | ended r => exact follows_of_owed_eq (.closing hw hs hempty) rfl rfl rfl rfl
  | @call f k hf hk =>
    have h : Ground t w k .waiting := ⟨hw, hk, hs⟩
    have howed (w' : World) (fs : List Frame) (mode' : Mode) (hfs : inFlight fs = [])
        (hq : (w'.task t).queue = (w.task t).queue) :
        Machine.owed t ⟨w', fs ++ k, mode'⟩ = Machine.owed t ⟨w, f :: k, mode⟩ := by
      simp [Machine.owed, hfs, hq, Frame.Inner.handed_eq_nil (.inr hf)]
    cases mode with
    | running =>
      have follows {m : Machine} (hstaged : m.Staged t due) (howed : m.owed t = _)
          (haccepted : m.world.accepted t = w.accepted t) :
          Follows t due ⟨w, f :: k, .running⟩ m :=
        follows_of_owed_eq hstaged (Frame.Inner.handed_eq_nil (.inr hf)) hf.pushed_eq_nil howed
          haccepted
      -- of the caller's calls only a signal touches the state word, and the task is idle here
      by_cases hfiring : ∃ i point, f = .firing i point
      · obtain ⟨i, point, rfl⟩ := hfiring
        obtain ⟨w', f', hm, ⟨rfl, hb⟩ | ⟨point', rfl, hb⟩⟩ := hf.advance_firing hw hs k
        · simp only [step, hm]
          exact follows (.draining (h.moves hb) (by rintro ⟨⟩) rfl) (howed w' [_] _ rfl hb.queue)
            hb.accepted
        · simp only [step, hm]
          have hnext : Ground t w' (.firing i point' :: k) .waiting :=
            (h.moves hb).call (hb.hears (.watcher i) hf)
          exact follows (.idle hnext fun _ => ⟨rfl, .inr ⟨_, List.mem_cons_self, rfl⟩⟩)
            (howed w' [_] _ rfl hb.queue) hb.accepted
      · obtain ⟨w', fs, mode', hm, hb, hfs, hmode', hrouses⟩ :=
          hf.advance hw (fun h => absurd h hfiring) k
        simp only [step, hm]
        have hnext := h.stays hb
        refine follows (.idle { hnext with outside := .append hfs hnext.outside } ?_)
          (howed w' fs mode' (inFlight_of_inner fun f h => .inr (hfs f h)) hb.queue) hb.accepted
        refine fun hd => ⟨hmode', ?_⟩
        rcases (hdue hd).2 with hq | ⟨f', hmem, hf'⟩
        · exact .inl (hb.queue.trans hq)
        · -- the signal that is still to come is that of the call, or of one below
          rcases List.mem_cons.mp hmem with rfl | hmem
          · rcases hrouses hf' with hrun | ⟨f', hmem, hf'⟩
            · rw [hs] at hrun; cases hrun
            · exact .inr ⟨f', List.mem_append_left k hmem, hf'⟩
          · exact .inr ⟨f', List.mem_append_right fs hmem, hf'⟩
    | ended r =>
      cases r with
      | answer a =>
        simp only [step, hf.resume_answer]
        exact follows_of_owed_eq (.idle (h.call hf) fun hd => ⟨rfl, (hdue hd).2⟩) rfl rfl rfl rfl
      | panic p =>
        simp only [step, hf.resume_panic]
        exact follows_of_owed_eq (.idle h fun hd => absurd (hdue hd).1 (by rintro ⟨⟩)) rfl rfl
          (howed w [] _ rfl rfl) rfl

theorem follows_of_advanceDrain {point : Drain} {taken : UInt64} (h : Ground t w k point.holds)
    (hfound : point.found = true → (w.task t).queue = []) (hpoll : point ≠ .poll) :
    Follows t due ⟨w, .drain t point taken :: k, .running⟩ (w.advanceDrain k t point taken) := by
  have hb := h.orderly.setCell (point.step (w.task t).cell).1
  have hstep := Drain.step_holds h.state hpoll
  simp only [World.advanceDrain]
  split
  · next point' hp =>
    rw [hp] at hstep
    rw [hstep.1] at hb
    have hempty : point'.found = true → _ := fun hf => hb.queue.trans (hfound (hstep.2 hf))
    exact follows_of_owed_eq (.draining (h.moves hb) hempty rfl) rfl rfl
      (congrArg (inFlight k ++ ·) hb.queue) hb.accepted
  · next hp =>
    rw [hp] at hstep
    rw [hstep.1] at hb
    have hempty := hb.queue.trans (hfound hstep.2)
    exact follows_of_owed_eq (.idle (h.moves hb) fun _ => ⟨rfl, .inl hempty⟩) rfl rfl
      (congrArg (inFlight k ++ ·) hb.queue) hb.accepted

theorem follows_of_poll {taken : UInt64} (h : Ground t w k .running) :
    Follows t due ⟨w, .drain t .poll taken :: k, .running⟩
      (w.advance k (.drain t .poll taken)) := by
  simp only [World.advance]
  split
  · next item w' hpop =>
    obtain ⟨rest, hq, hitem, hb⟩ := h.orderly.pop? hpop
    have hflying := h.outside.inFlight_eq_nil
    refine follows_of_owed_eq ?_ rfl rfl ?_ hb.accepted
    · have hstaged : Staged t due ⟨w', [.script []] ++ .handing t item ::
          .drain t .poll (taken + 1) :: k, .running⟩ :=
        .handing (h.stays hb) hitem (.inr rfl) rfl
      rw [hitem.onPoll_eq_nil]
      exact hstaged
    · simp [owed, World.enter, Frame.handed, hflying, hb.queue, hq]
  · next hpop =>
    rw [h.orderly.takeOnEmpty]
    exact follows_of_owed_eq (.draining h (fun _ => World.queue_eq_nil_of_pop? hpop) rfl)
      rfl rfl rfl rfl

theorem follows_of_draining {point : Drain} {taken : UInt64} (h : Ground t w k point.holds)
    (hfound : point.found = true → (w.task t).queue = []) (hmode : mode.panics = false) :
    Follows t due ⟨w, .drain t point taken :: k, mode⟩
      (step ⟨w, .drain t point taken :: k, mode⟩) := by
  cases mode with
  | running =>
    cases point with
    | poll => exact follows_of_poll h
    | claim | clear | release | swap | reclaim | abandon =>
      exact follows_of_advanceDrain h hfound nofun
  | ended r =>
    cases r with
    | answer a => exact follows_of_owed_eq (.draining h hfound rfl) rfl rfl rfl rfl
    | panic p => cases hmode

theorem follows_of_handing {pre : List Frame} {item : Item} {taken : UInt64}
    (h : Ground t w k .running) (hitem : item.Orderly t)
    (hpre : pre = [] ∨ pre = [.script []]) (hmode : mode.panics = false) :
    Follows t due ⟨w, pre ++ .handing t item :: .drain t .poll taken :: k, mode⟩
      (step ⟨w, pre ++ .handing t item :: .drain t .poll taken :: k, mode⟩) := by
  have stay (pre : List Frame) (mode : Mode) (hpre : pre = [] ∨ pre = [.script []])
      (hmode : mode.panics = false) :
      Staged t due ⟨w, pre ++ .handing t item :: .drain t .poll taken :: k, mode⟩ :=
    .handing h hitem hpre hmode
  rcases mode with - | ⟨a | p⟩
  · rcases hpre with rfl | rfl
    · have hb := h.orderly.note (.accepted t item.id)
      have : step ⟨w, .handing t item :: .drain t .poll taken :: k, .running⟩ =
          ⟨w.note (.accepted t item.id), [.script item.onAccept] ++
            .accepting t item :: .drain t .poll taken :: k, .running⟩ := by
        simp [step, World.advance, hitem.polled_eq, World.enter]
      rw [List.nil_append, this]
      refine ⟨.serving (h.stays hb) (List.forall_mem_singleton.mpr (.inl hitem.onAccept)) rfl,
        ?_, ?_⟩
      · simp [owed, handed, pushed, Frame.handed, Frame.pushed, hb.queue]
      · simpa [handed, Frame.handed, Note.accepted?] using hb.accepted
    · exact follows_of_owed_eq (stay [] _ (.inl rfl) rfl) rfl rfl rfl rfl
  · rcases hpre with rfl | rfl
    · exact follows_of_owed_eq (stay [] .running (.inl rfl) rfl) rfl rfl rfl rfl
    · exact follows_of_owed_eq (stay [.script []] .running (.inr rfl) rfl) rfl rfl rfl rfl
  · cases hmode

/-- Nothing is in flight while the consumer or the hook is at work. -/
theorem owed_of_serving {fs : List Frame} {base : Frame} {taken : UInt64}
    (hfs : ∀ f ∈ fs, f.Inner t w) (hbase : base.Served t) (hk : Outside t w k) :
    owed t ⟨w, fs ++ base :: .drain t .poll taken :: k, mode⟩ = (w.task t).queue := by
  rw [owed, inFlight_append, inFlight_of_inner hfs, inFlight_cons, inFlight_cons,
    hk.inFlight_eq_nil, hbase.handed_eq_nil]
  rfl

theorem follows_of_serves {fs : List Frame} {base : Frame} {taken : UInt64} {pushed : List Item}
    {m m' : Machine} (h : Ground t w k .running) (hfs : ∀ f ∈ fs, f.Inner t w)
    (hbase : base.Served t) (hm : m.world = w) (howed : m.owed t = (w.task t).queue)
    (hhanded : m.handed = []) (hpushed : m.pushed = pushed)
    (hserves : w.Serves t (fs ++ base :: .drain t .poll taken :: k) pushed m') :
    Follows t due m m' := by
  obtain ⟨w', fs', mode, rfl, hb, hfs'⟩ := hserves
  have hnext := h.stays hb
  have hinner : ∀ f ∈ fs' ++ fs, f.Inner t w' := by
    intro f hf
    rcases List.mem_append.mp hf with hf | hf
    · exact hfs' f hf
    · exact (hfs f hf).mono hb.hears
  rw [← List.append_assoc]
  refine ⟨.serving hnext hinner hbase, ?_, ?_⟩
  · rw [hhanded, hpushed, howed, List.nil_append, owed_of_serving hinner hbase hnext.outside,
      hb.queue]
  · rw [hhanded, hb.accepted, hm, List.map_nil, List.append_nil]

theorem follows_of_fail {item : Item} {taken : UInt64} {error : String}
    (h : Ground t w k .running) (hpanics : w.hookPanics t error = false) :
    Follows t due ⟨w, .accepting t item :: .drain t .poll taken :: k, mode⟩
      (w.fail t error (.drain t .poll taken :: k)) := by
  have follows {m' : Machine} (hstaged : m'.Staged t due)
      (howed : m'.owed t = inFlight k ++ (w.task t).queue)
      (haccepted : m'.world.accepted t = w.accepted t) :
      Follows t due ⟨w, .accepting t item :: .drain t .poll taken :: k, mode⟩ m' :=
    follows_of_owed_eq hstaged (by cases mode <;> rfl) (by cases mode <;> rfl) howed haccepted
  obtain ⟨w', hb, ⟨script, r, hm, hscript⟩ | ⟨r, hm, hr⟩⟩ :=
    h.orderly.fail error (.drain t .poll taken :: k)
  · have hstaged : Staged t due
        ⟨w', [.script script] ++ .ending r :: .drain t .poll taken :: k, .running⟩ :=
      .serving (h.stays hb) (List.forall_mem_singleton.mpr (.inl hscript)) trivial
    rw [hm]
    exact follows hstaged (congrArg (inFlight k ++ ·) hb.queue) hb.accepted
  · rw [hm]
    exact follows (.draining (h.stays hb) nofun (hr hpanics)) (congrArg (inFlight k ++ ·) hb.queue)
      hb.accepted

theorem follows_of_served {base : Frame} {taken : UInt64} (h : Ground t w k .running)
    (hbase : base.Served t)
    (hpanics : hookPanics ⟨w, base :: .drain t .poll taken :: k, mode⟩ = false) :
    Follows t due ⟨w, base :: .drain t .poll taken :: k, mode⟩
      (step ⟨w, base :: .drain t .poll taken :: k, mode⟩) := by
  have again (mode : Mode) : Staged t due ⟨w, [] ++ base :: .drain t .poll taken :: k, mode⟩ :=
    .serving h (fun _ h => absurd h List.not_mem_nil) hbase
  have leave {mode : Mode} (hmode : mode.panics = false) :
      Staged t due ⟨w, .drain t .poll taken :: k, mode⟩ := .draining h nofun hmode
  cases base with
  | accepting t' item =>
    obtain rfl : t' = t := hbase
    rcases mode with - | ⟨a | p⟩
    · cases he : item.ending.error? with
      | none =>
        have : step ⟨w, .accepting t' item :: .drain t' .poll taken :: k, .running⟩ =
            ⟨w, .drain t' .poll taken :: k, .ended (.answer .nothing)⟩ := by
          cases hi : item.ending <;> simp_all [step, World.advance, World.answer, Ending.error?]
        rw [this]
        exact follows_of_owed_eq (leave rfl) rfl rfl rfl rfl
      | some error =>
        have : step ⟨w, .accepting t' item :: .drain t' .poll taken :: k, .running⟩ =
            w.fail t' error (.drain t' .poll taken :: k) := by
          cases hi : item.ending <;> simp_all [step, World.advance, Ending.error?]
        rw [this]
        exact follows_of_fail h (by simpa [hookPanics, failure?, he] using hpanics)
    · exact follows_of_owed_eq (again .running) rfl rfl rfl rfl
    · exact follows_of_fail h hpanics
  | ending r =>
    rcases mode with - | ⟨a | p⟩
    · exact follows_of_owed_eq (leave hpanics) rfl rfl rfl rfl
    · exact follows_of_owed_eq (again .running) rfl rfl rfl rfl
    · cases hpanics
  | _ => exact hbase.elim

theorem Staged.step {m : Machine} (h : m.Staged t due) (hstack : m.stack ≠ [])
    (hpanics : m.hookPanics = false) : m.Follows t due m.step := by
  cases h with
  | idle h hdue => exact follows_of_idle h hdue
  | draining h hfound hmode => exact follows_of_draining h hfound hmode
  | handing h hitem hpre hmode => exact follows_of_handing h hitem hpre hmode
  | @serving w fs base taken k mode h hfs hbase =>
    cases fs with
    -- a panic reaches the drain only from the consumer's or the hook's own call
    | nil => exact follows_of_served h hbase hpanics
    | cons f fs =>
      obtain ⟨hf, hfs'⟩ := List.forall_mem_cons.mp hfs
      have howed : Machine.owed t ⟨w, f :: fs ++ base :: .drain t .poll taken :: k, mode⟩ =
          (w.task t).queue := owed_of_serving hfs hbase h.outside
      cases mode with
      | running =>
        exact follows_of_serves h hfs' hbase rfl howed hf.handed_eq_nil rfl
          (hf.advance h.orderly h.state _)
      | ended r =>
        exact follows_of_serves h hfs' hbase rfl howed rfl rfl (hf.resume h.orderly r _)
  | @closing w r hw hs hdue =>
    have : Machine.step ⟨w, [.settling (some r)], .running⟩ = ⟨w, [], .ended r⟩ := by
      simp [Machine.step, World.advance, hw.spawned]
    rw [this]
    exact follows_of_owed_eq (.closed hw hs hdue) rfl rfl rfl rfl
  | closed => exact absurd rfl hstack

theorem Staged.ended {m : Machine} (h : m.Staged t due) (hstack : m.stack = []) :
    m.world.Orderly t ∧ (m.world.task t).cell.state = .waiting ∧
      (due → (m.world.task t).queue = [] ∧ ∃ a, m.result = .answer a) := by
  cases h with
  | idle h => cases h.outside <;> cases hstack
  | draining | closing => cases hstack
  | handing | serving => exact absurd hstack (by simp)
  | @closed w r hw hs hdue =>
    refine ⟨hw, hs, fun hd => ⟨(hdue hd).2, ?_⟩⟩
    cases r with
    | answer a => exact ⟨a, rfl⟩
    | panic p => cases (hdue hd).1

theorem Staged.run {m : Machine} (h : m.Staged t due)
    (hpanics : ∀ m' ∈ m.trail, m'.hookPanics = false) :
    m.run.Staged t due ∧ m.run.stack = [] ∧
      Ledger t m m.run (m.trail.flatMap handed) (m.trail.flatMap pushed) := by
  induction m using trail.induct with
  | case1 m hstack =>
    have hhanded : m.handed = [] := by simp only [handed, hstack]
    have hpushed : m.pushed = [] := by simp only [pushed, hstack]
    rw [Machine.run, trail, if_pos hstack, if_pos hstack, List.flatMap_singleton,
      List.flatMap_singleton, hhanded, hpushed]
    exact ⟨h, hstack, by simp, by simp⟩
  | case2 m hstack ih =>
    rw [trail, if_neg hstack] at hpanics
    rw [Machine.run, trail, if_neg hstack, if_neg hstack, List.flatMap_cons, List.flatMap_cons]
    obtain ⟨hfirst, hrest⟩ := List.forall_mem_cons.mp hpanics
    have hnext := h.step hstack hfirst
    obtain ⟨hstaged, hend, hledger⟩ := ih hnext.staged hrest
    exact ⟨hstaged, hend, hnext.ledger.trans hledger⟩

end Machine

/-! ### Sessions -/

/-- Where the actions of an outermost caller led, what was pushed onto the queue of the task and
what its consumer was handed, oldest first. -/
structure Session where
  world : World
  pushed : List Item
  handed : List Item

namespace Session

def opening (s : Session) (a : Action) : Machine := s.world.begin a [.settling none]

def perform (s : Session) (a : Action) : Session where
  world := (s.world.perform a).1
  pushed := s.pushed ++ (a.pushed ++ (s.opening a).trail.flatMap Machine.pushed)
  handed := s.handed ++ (s.opening a).trail.flatMap Machine.handed

/-- No panic leaves the failure hook while the action is performed. -/
def HookReturns (s : Session) (a : Action) : Prop :=
  ∀ m ∈ (s.opening a).trail, m.hookPanics = false

end Session

/-- A task that nobody has signalled, with an orderly queue and hook, and channels without
subscriptions. -/
structure World.Fresh (t : Nat) (w : World) : Prop where
  exists_task : t < w.tasks.length
  task : (w.task t).Orderly t
  cell : (w.task t).cell = {}
  subscriptions : ∀ c, (w.channel c).subscriptions = []
  spawned : w.spawned = []
  notes : w.notes = []

/-- A session that orderly actions lead to from a fresh world, while no panic leaves the hook. -/
inductive Session.Reached (t : Nat) : Session → Prop where
  | fresh {w : World} : w.Fresh t → Session.Reached t ⟨w, (w.task t).queue, []⟩
  | next {s : Session} {a : Action} : Session.Reached t s → a.Orderly t → s.HookReturns a →
    Session.Reached t (s.perform a)

namespace Session

variable {t : Nat} {s : Session} {a : Action}

/-- What an action leads to that ends within so many steps. -/
def performIn (n : Nat) (s : Session) (a : Action) : Session where
  world := ((s.opening a).steps n).world
  pushed := s.pushed ++ (a.pushed ++ ((s.opening a).walk n).flatMap Machine.pushed)
  handed := s.handed ++ ((s.opening a).walk n).flatMap Machine.handed

theorem perform_eq_performIn {n : Nat} (h : ((s.opening a).steps n).stack = []) :
    s.perform a = s.performIn n a := by
  have hworld : (s.perform a).world = ((s.opening a).steps n).world :=
    congrArg Machine.world (Machine.run_eq_steps h)
  rw [performIn, ← hworld, ← Machine.trail_eq_walk h]
  rfl

theorem hookReturns_of_walk {n : Nat} (h : ((s.opening a).steps n).stack = [])
    (hpanics : ((s.opening a).walk n).all (!·.hookPanics) = true) : s.HookReturns a := by
  intro m hm
  rw [Machine.trail_eq_walk h] at hm
  simpa using List.all_eq_true.mp hpanics m hm

theorem Reached.performIn {n : Nat} (hs : s.Reached t) (ha : a.Orderly t)
    (h : ((s.opening a).steps n).stack = [])
    (hpanics : ((s.opening a).walk n).all (!·.hookPanics) = true) :
    (s.performIn n a).Reached t :=
  perform_eq_performIn h ▸ hs.next ha (hookReturns_of_walk h hpanics)

/-- What holds between the actions of the caller. -/
structure Kept (t : Nat) (s : Session) : Prop where
  orderly : s.world.Orderly t
  waiting : (s.world.task t).cell.state = .waiting
  /-- Items leave the queue in the order in which they came. -/
  handed_append : s.handed ++ (s.world.task t).queue = s.pushed
  accepted : s.world.accepted t = s.handed.map Item.id

theorem kept_of_fresh {w : World} (h : w.Fresh t) : Kept t ⟨w, (w.task t).queue, []⟩ where
  orderly :=
    { exists_task := h.exists_task
      task := h.task
      listeners := fun c s hs => absurd (h.subscriptions c ▸ hs) List.not_mem_nil
      spawned := h.spawned }
  waiting := congrArg Cell.state h.cell
  handed_append := rfl
  accepted := by simp [World.accepted, h.notes]

/-- An action of the caller; where it reaches a watcher, it returns and leaves the queue empty. -/
theorem Kept.perform (hs : s.Kept t) (ha : a.Orderly t) (hhook : s.HookReturns a) :
    (s.perform a).Kept t ∧ (a.Rouses s.world →
      ((s.perform a).world.task t).queue = [] ∧ ∃ r, (s.world.perform a).2 = .answer r) := by
  obtain ⟨w', fs, mode, hm, hb, hfs, hrouses⟩ := hs.orderly.begin ha [.settling none]
  have hk : Outside t w' (fs ++ [.settling none]) := .append hfs .bottom
  have hstaged : (s.opening a).Staged t (a.Rouses s.world) := by
    rw [opening, hm]
    refine .idle ⟨hb.orderly, hk, hb.state.trans hs.waiting⟩ fun hd => ?_
    obtain ⟨hmode, f, hf, hf'⟩ := hrouses hd
    exact ⟨hmode, .inr ⟨f, List.mem_append_left _ hf, hf'⟩⟩
  obtain ⟨hrun, hend, hledger⟩ := hstaged.run hhook
  obtain ⟨horderly, hwaiting, hdue⟩ := hrun.ended hend
  refine ⟨⟨horderly, hwaiting, ?_, ?_⟩, hdue⟩
  · have howed : (s.opening a).owed t = (s.world.task t).queue ++ a.pushed := by
      rw [opening, hm, Machine.owed, hk.inFlight_eq_nil, List.nil_append, hb.queue]
    have howed' : (s.opening a).run.owed t = ((s.perform a).world.task t).queue := by
      rw [Machine.owed, hend]
      rfl
    calc (s.perform a).handed ++ ((s.perform a).world.task t).queue
        = s.handed ++ ((s.opening a).trail.flatMap Machine.handed ++ (s.opening a).run.owed t) := by
          rw [howed', ← List.append_assoc]; rfl
      _ = s.handed ++ (s.world.task t).queue ++
            (a.pushed ++ (s.opening a).trail.flatMap Machine.pushed) := by
          rw [hledger.owed, howed, List.append_assoc, List.append_assoc]
      _ = (s.perform a).pushed := by rw [hs.handed_append]; rfl
  · have haccepted : (s.opening a).world.accepted t = s.handed.map Item.id := by
      rw [opening, hm, hb.accepted, hs.accepted]
    calc (s.perform a).world.accepted t
        = (s.opening a).world.accepted t ++
            ((s.opening a).trail.flatMap Machine.handed).map Item.id := hledger.accepted
      _ = (s.perform a).handed.map Item.id := by rw [haccepted, ← List.map_append]; rfl

theorem Reached.kept (h : s.Reached t) : s.Kept t := by
  induction h with
  | fresh hw => exact kept_of_fresh hw
  | next _ ha hhook ih => exact (ih.perform ha hhook).1

/-- After an action that reaches a watcher, the action has returned, the queue is empty, the task
is idle, and the consumer was handed every item that was pushed, once and in the order of the
pushes. -/
theorem delivered_of_rouses (hs : s.Reached t) (ha : a.Orderly t) (hhook : s.HookReturns a)
    (hrouses : a.Rouses s.world) : (∃ r, (s.world.perform a).2 = .answer r) ∧
      ((s.perform a).world.task t).queue = [] ∧
      ((s.perform a).world.task t).cell.state = .waiting ∧
      (s.perform a).handed = (s.perform a).pushed ∧
      (s.perform a).world.accepted t = (s.perform a).pushed.map Item.id := by
  obtain ⟨hkept, hdue⟩ := hs.kept.perform ha hhook
  obtain ⟨hempty, hreturns⟩ := hdue hrouses
  have hall : (s.perform a).handed = (s.perform a).pushed := by
    rw [← hkept.handed_append, hempty, List.append_nil]
  exact ⟨hreturns, hempty, hkept.waiting, hall, hall ▸ hkept.accepted⟩

def change : Action := .publish 0 (.ok (.array [107]))

def watch : Action := .start 0 0 .inline (.ok (.array [107, 42]))

/-- The consumer pushes `b`, publishes while its own drain runs, and fails; at `b` it panics. -/
def errand : Item :=
  .mk "a" [] [.push 0 (.mk "b" [] [] (.panic .other)), change] (.failure "refused")

/-- A hook that pushes `c` and publishes at the first failure. -/
def hook : Hook := { scripts := [[.push 0 (.mk "c" [] [] .success), change]] }

/-- A fresh task and a channel, after two watchers started and an item was pushed. -/
def rehearsed : Session :=
  let s : Session := ⟨{ tasks := [{ hook := some hook }], channels := [{}] }, [], []⟩
  ((s.performIn 10 watch).performIn 10 watch).performIn 2 (.push 0 errand)

theorem orderly_change : change.Orderly 0 := .publish 0 _

theorem orderly_errand : errand.Orderly 0 := by
  refine .mk (List.forall_mem_cons.mpr ⟨.push (.mk nofun nofun), ?_⟩) nofun
  exact List.forall_mem_singleton.mpr orderly_change

theorem rehearsed_reached : rehearsed.Reached 0 := by
  have hfresh : World.Fresh 0 { tasks := [{ hook := some hook }], channels := [{}] } :=
    { exists_task := Nat.zero_lt_one
      task :=
        { queue := nofun
          onEmpty := rfl
          hook := by
            rintro _ ⟨⟩
            refine List.forall_mem_singleton.mpr (List.forall_mem_cons.mpr ⟨?_, ?_⟩)
            · exact .push (.mk nofun nofun)
            · exact List.forall_mem_singleton.mpr orderly_change }
      cell := rfl
      subscriptions := fun c => by rcases c with _ | c <;> rfl
      spawned := rfl
      notes := rfl }
  have hwatch : watch.Orderly 0 := .start 0 _
  exact ((Reached.fresh hfresh).performIn hwatch (by decide +kernel) (by decide +kernel)
    |>.performIn hwatch (by decide +kernel) (by decide +kernel)).performIn (.push orderly_errand)
    (by decide +kernel) (by decide +kernel)

theorem delivered_of_rouses_of_errand : rehearsed.Reached 0 ∧ change.Orderly 0 ∧
    rehearsed.HookReturns change ∧ change.Rouses rehearsed.world ∧
    (∃ r, (rehearsed.world.perform change).2 = .answer r) ∧
    ((rehearsed.perform change).world.task 0).queue = [] ∧
    ((rehearsed.perform change).world.task 0).cell.state = .waiting ∧
    (rehearsed.perform change).handed = (rehearsed.perform change).pushed ∧
    (rehearsed.perform change).world.accepted 0 =
      (rehearsed.perform change).pushed.map Item.id := by
  have hhook : rehearsed.HookReturns change :=
    hookReturns_of_walk (n := 81) (by decide +kernel) (by decide +kernel)
  have hlisteners : (rehearsed.world.channel 0).interested (.array [107]) =
      .ok [.watcher 0, .watcher 1] := rfl
  have hrouses : change.Rouses rehearsed.world :=
    .publish (s := ⟨0, .array [107, 42], .watcher 0⟩) hlisteners List.mem_cons_self rfl
  exact ⟨rehearsed_reached, orderly_change, hhook, hrouses,
    delivered_of_rouses rehearsed_reached orderly_change hhook hrouses⟩

example : (rehearsed.performIn 81 change).world.accepted 0 = ["a", "b", "c"] := by decide +kernel

end Session

end StoreClient.Tasks

import StoreClient.Proofs.Tasks.Calls

/-! # Callbacks that call back

The consumer of a task, its failure hook and the polls of its queue may push onto the queue, signal
to the task and drain it once more (`Action.Reentrant`).  While a drain has the task, these calls
are turned away: a signal raises the flag and owes nothing, and a drain finds the task taken and
returns without an item.  So a callback leaves the state word as it is and never lowers the flag
(`Callback.step`).

A plain queue hands its items out oldest first.  Any other answers its polls as it likes: between
two steps it may hold other items and other callbacks (`World.requeue`). -/

namespace StoreClient.Tasks

/-! ### Callers that come back -/

mutual

/-- A callback pushes onto the queue of a task, signals to it, drains it, or looks at something. -/
inductive Action.Reentrant (t : Nat) : Action → Prop where
  | push {item : Item} : Item.Reentrant t item → Action.Reentrant t (.push t item)
  | signalReady : Action.Reentrant t (.signalReady t)
  | run : Action.Reentrant t (.run t)
  | look {a : Action} : a.looks = true → Action.Reentrant t a

/-- The queue hands the item out after such a callback, and the consumer runs one before it returns,
fails or panics. -/
inductive Item.Reentrant (t : Nat) : Item → Prop where
  | mk {id : String} {onPoll onAccept : List Action} {ending : Ending} :
    (∀ a ∈ onPoll, Action.Reentrant t a) → (∀ a ∈ onAccept, Action.Reentrant t a) →
      ending ≠ .breaksQueue → Item.Reentrant t (.mk id onPoll onAccept ending)

end

namespace Item.Reentrant

variable {t : Nat} {item : Item}

theorem onPoll (h : item.Reentrant t) : ∀ a ∈ item.onPoll, a.Reentrant t := by
  cases h; assumption

theorem onAccept (h : item.Reentrant t) : ∀ a ∈ item.onAccept, a.Reentrant t := by
  cases h; assumption

theorem polled_eq (h : item.Reentrant t) : item.polled = .answer (.item item.id) := by
  cases h with
  | @mk id onPoll onAccept ending _ _ hending =>
    cases ending with
    | breaksQueue => exact absurd rfl hending
    | success | failure | panic => rfl

end Item.Reentrant

/-- What waits in the queue and all callbacks that are left come back in these ways only. -/
structure Task.Reentrant (t : Nat) (task : Task) : Prop where
  queue : ∀ item ∈ task.queue, item.Reentrant t
  onEmpty : ∀ script ∈ task.onEmpty, ∀ a ∈ script, a.Reentrant t
  hook : ∀ hook, task.hook = some hook → ∀ script ∈ hook.scripts, ∀ a ∈ script, a.Reentrant t

structure World.Reentrant (t : Nat) (w : World) : Prop where
  exists_task : t < w.tasks.length
  task : (w.task t).Reentrant t

/-- The error that a note says the failure hook of a task saw. -/
def Note.shown? (t : Nat) : Note → Option String
  | .hooked task error => if task = t then some error else none
  | _ => none

/-- The errors that the failure hook of a task saw, as the notes tell, oldest first. -/
def World.shown (t : Nat) (w : World) : List String := w.notes.reverse.filterMap (·.shown? t)

/-- Another queue for a task, and other callbacks for the polls that find it empty. -/
def World.requeue (w : World) (t : Nat) (queue : List Item) (onEmpty : List (List Action)) :
    World :=
  w.modifyTask t fun task => { task with queue := queue, onEmpty := onEmpty }

/-! ### What a drain does to the world -/

/-- What was done while a drain was under way. -/
structure Doings where
  /-- The items that polls answered. -/
  taken : List Item := []
  /-- The items that were put into the queue. -/
  pushed : List Item := []
  /-- The items that the consumer was handed. -/
  handed : List Item := []
  /-- The failures of the consumer that were counted. -/
  errors : List String := []

namespace Doings

def and (d d' : Doings) : Doings :=
  ⟨d.taken ++ d'.taken, d.pushed ++ d'.pushed, d.handed ++ d'.handed, d.errors ++ d'.errors⟩

@[simp] theorem and_nothing (d : Doings) : d.and {} = d := by simp [and]

theorem and_assoc (d d' d'' : Doings) : (d.and d').and d'' = d.and (d'.and d'') := by
  simp [and, List.append_assoc]

end Doings

/-- A world goes over into another by what was done; there the task has given words.  The hook, if
there is one, is shown every failure.  If the queue is plain, items leave it in front and join it at
the end, and no poll of the empty queue gets a callback that it did not have. -/
structure World.Turns (t : Nat) (plain : Prop) (w w' : World) (cell : Cell) (d : Doings) :
    Prop where
  reentrant : w'.Reentrant t
  onEmpty : plain → (w.task t).onEmpty = [] → (w'.task t).onEmpty = []
  cell : (w'.task t).cell = cell
  queue : plain → d.taken ++ (w'.task t).queue = (w.task t).queue ++ d.pushed
  failures : (w'.task t).failures = (w.task t).failures + UInt64.ofNat d.errors.length
  hook : (w'.task t).hook.isSome = (w.task t).hook.isSome
  accepted : w'.accepted t = w.accepted t ++ d.handed.map Item.id
  shown : w'.shown t = w.shown t ++ if (w.task t).hook.isSome then d.errors else []

namespace World

variable {t : Nat} {plain : Prop} {w w' w₁ : World} {c c' : Cell} {d d' : Doings}

theorem shown_note (n : Note) : (w.note n).shown t = w.shown t ++ (n.shown? t).toList := by
  simp only [shown, note, List.reverse_cons, List.filterMap_append]
  cases h : n.shown? t <;> simp [h]

theorem Turns.trans (h : w.Turns t plain w₁ c d) (h' : w₁.Turns t plain w' c' d') :
    w.Turns t plain w' c' (d.and d') where
  reentrant := h'.reentrant
  onEmpty hplain he := h'.onEmpty hplain (h.onEmpty hplain he)
  cell := h'.cell
  queue hplain := by
    have h := h.queue hplain
    have h' := h'.queue hplain
    rw [Doings.and, List.append_assoc, h', ← List.append_assoc, h, List.append_assoc]
  failures := by
    rw [h'.failures, h.failures, Doings.and, List.length_append, UInt64.ofNat_add,
      UInt64.add_assoc]
  hook := h'.hook.trans h.hook
  accepted := by rw [h'.accepted, h.accepted, Doings.and, List.map_append, List.append_assoc]
  shown := by
    rw [h'.shown, h.shown, h.hook, Doings.and]
    split <;> simp

namespace Reentrant

theorem turns_modifyTask (hw : w.Reentrant t) {f : Task → Task} {taken pushed : List Item}
    (hf : (f (w.task t)).Reentrant t)
    (honEmpty : plain → (w.task t).onEmpty = [] → (f (w.task t)).onEmpty = [])
    (hqueue : plain → taken ++ (f (w.task t)).queue = (w.task t).queue ++ pushed)
    (hfailures : (f (w.task t)).failures = (w.task t).failures)
    (hhook : (f (w.task t)).hook.isSome = (w.task t).hook.isSome) :
    w.Turns t plain (w.modifyTask t f) (f (w.task t)).cell { taken, pushed } := by
  have htask : (w.modifyTask t f).task t = f (w.task t) := task_modifyTask hw.exists_task f
  constructor
  · exact ⟨by simpa [modifyTask] using hw.exists_task, htask ▸ hf⟩
  · exact htask ▸ honEmpty
  · rw [htask]
  · rw [htask]
    exact hqueue
  · rw [htask, hfailures]
    exact (UInt64.add_zero _).symm
  · rw [htask]
    exact hhook
  · exact (List.append_nil _).symm
  · simp [shown, modifyTask]

theorem turns_refl (hw : w.Reentrant t) : w.Turns t plain w (w.task t).cell {} where
  reentrant := hw
  onEmpty _ := id
  cell := rfl
  queue _ := (List.append_nil _).symm
  failures := (UInt64.add_zero _).symm
  hook := rfl
  accepted := (List.append_nil _).symm
  shown := by simp

theorem turns_setCell (hw : w.Reentrant t) (c : Cell) : w.Turns t plain (w.setCell t c) c {} := by
  refine hw.turns_modifyTask ?_ (fun _ => id) (fun _ => (List.append_nil _).symm) rfl rfl
  exact { queue := hw.task.queue, onEmpty := hw.task.onEmpty, hook := hw.task.hook }

theorem turns_push (hw : w.Reentrant t) {item : Item} (hi : item.Reentrant t) :
    w.Turns t plain (w.push t item) (w.task t).cell { pushed := [item] } := by
  refine hw.turns_modifyTask ?_ (fun _ => id) (fun _ => rfl) rfl rfl
  refine { queue := ?_, onEmpty := hw.task.onEmpty, hook := hw.task.hook }
  intro x hx
  rcases List.mem_append.mp hx with hx | hx
  · exact hw.task.queue x hx
  · exact List.mem_singleton.mp hx ▸ hi

theorem turns_requeue (hw : w.Reentrant t) {queue : List Item} {onEmpty : List (List Action)}
    (hplain : ¬plain) (hqueue : ∀ item ∈ queue, item.Reentrant t)
    (honEmpty : ∀ script ∈ onEmpty, ∀ a ∈ script, a.Reentrant t) :
    w.Turns t plain (w.requeue t queue onEmpty) (w.task t).cell {} := by
  refine hw.turns_modifyTask ?_ (absurd · hplain) (absurd · hplain) rfl rfl
  exact { queue := hqueue, onEmpty := honEmpty, hook := hw.task.hook }

theorem turns_pop? (hw : w.Reentrant t) {item : Item} (h : w.pop? t = some (item, w')) :
    item.Reentrant t ∧ w.Turns t plain w' (w.task t).cell { taken := [item] } := by
  unfold World.pop? at h
  split at h
  · cases h
  · next item' rest hq =>
    cases h
    have hmem : ∀ x ∈ item :: rest, x.Reentrant t := hq ▸ hw.task.queue
    refine ⟨hmem item List.mem_cons_self, ?_⟩
    refine hw.turns_modifyTask ?_ (fun _ => id) ?_ rfl rfl
    · refine { queue := ?_, onEmpty := hw.task.onEmpty, hook := hw.task.hook }
      intro x hx
      exact hmem x (List.mem_cons_of_mem item hx)
    · intro _
      rw [hq, List.append_nil]
      rfl

theorem turns_takeOnEmpty (hw : w.Reentrant t) {script : List Action}
    (h : w.takeOnEmpty t = some (script, w')) : (w.task t).onEmpty ≠ [] ∧
      (∀ a ∈ script, a.Reentrant t) ∧ w.Turns t plain w' (w.task t).cell {} := by
  unfold World.takeOnEmpty at h
  split at h
  · cases h
  · next script' rest he =>
    cases h
    have hscripts : ∀ s ∈ script :: rest, ∀ a ∈ s, a.Reentrant t := he ▸ hw.task.onEmpty
    refine ⟨by simp [he], hscripts script List.mem_cons_self, ?_⟩
    refine hw.turns_modifyTask ?_ (by simp [he]) (fun _ => (List.append_nil _).symm) rfl rfl
    refine { queue := hw.task.queue, onEmpty := ?_, hook := hw.task.hook }
    intro s hs
    exact hscripts s (List.mem_cons_of_mem script hs)

theorem turns_takeHookScript (hw : w.Reentrant t) {script : List Action}
    (h : w.takeHookScript t = some (script, w')) :
    (∀ a ∈ script, a.Reentrant t) ∧ w.Turns t plain w' (w.task t).cell {} := by
  unfold World.takeHookScript at h
  split at h
  · next panicsOn script' rest hh =>
    cases h
    have hscripts := hw.task.hook _ hh
    refine ⟨hscripts script List.mem_cons_self, ?_⟩
    refine hw.turns_modifyTask ?_ (fun _ => id) (fun _ => (List.append_nil _).symm) rfl
      (by simp [hh])
    refine { queue := hw.task.queue, onEmpty := hw.task.onEmpty, hook := ?_ }
    rintro hook' ⟨⟩ s hs
    exact hscripts s (List.mem_cons_of_mem script hs)
  · cases h

theorem turns_note (hw : w.Reentrant t) {n : Note} {handed : List Item}
    (haccepted : (n.accepted? t).toList = handed.map Item.id) (hshown : n.shown? t = none) :
    w.Turns t plain (w.note n) (w.task t).cell { handed } where
  reentrant := ⟨hw.exists_task, hw.task⟩
  onEmpty _ := id
  cell := rfl
  queue _ := (List.append_nil _).symm
  failures := (UInt64.add_zero _).symm
  hook := rfl
  accepted := by rw [accepted_note, haccepted]
  shown := by simp [shown_note, hshown]

theorem turns_did (hw : w.Reentrant t) (a : Action) (answer : Answer) :
    w.Turns t plain (w.note (.did a answer)) (w.task t).cell {} :=
  hw.turns_note rfl rfl

theorem turns_accepted (hw : w.Reentrant t) (item : Item) :
    w.Turns t plain (w.note (.accepted t item.id)) (w.task t).cell { handed := [item] } := by
  apply hw.turns_note
  · simp [Note.accepted?]
  · rfl

/-- A failure is counted and, where there is a hook, shown to it. -/
theorem turns_failure (hw : w.Reentrant t) (error : String) :
    w.Turns t plain (if (w.task t).hook.isSome then (w.countFailure t).note (.hooked t error)
      else w.countFailure t) (w.task t).cell { errors := [error] } := by
  generalize hw' : (if (w.task t).hook.isSome then (w.countFailure t).note (.hooked t error)
    else w.countFailure t) = w'
  have htask : (w.countFailure t).task t =
      { w.task t with failures := (w.task t).failures + 1 } := task_modifyTask hw.exists_task _
  have htask' : w'.task t = { w.task t with failures := (w.task t).failures + 1 } := by
    rw [← hw']
    split <;> exact htask
  have hlength : t < w'.tasks.length := by
    rw [← hw']
    split <;> simpa [World.countFailure, World.modifyTask, World.note] using hw.exists_task
  constructor
  · refine ⟨hlength, ?_⟩
    rw [htask']
    exact { queue := hw.task.queue, onEmpty := hw.task.onEmpty, hook := hw.task.hook }
  · intro _ he
    rw [htask']
    exact he
  · rw [htask']
  · intro _
    rw [htask']
    exact (List.append_nil _).symm
  · rw [htask']
    rfl
  · rw [htask']
  · rw [← hw']
    split <;> simp [World.accepted, World.countFailure, World.modifyTask, World.note,
      Note.accepted?]
  · rw [← hw']
    split <;> simp [World.shown, World.countFailure, World.modifyTask, World.note, Note.shown?]

end Reentrant

/-- The failure of a consumer is counted and shown to the hook, which runs a callback or ends. -/
theorem Reentrant.fail (hw : w.Reentrant t) (error : String) (k : List Frame) :
    ∃ w', w.Turns t plain w' (w.task t).cell { errors := [error] } ∧
      ((∃ script r, w.fail t error k = ⟨w', .script script :: .ending r :: k, .running⟩ ∧
          (∀ a ∈ script, a.Reentrant t) ∧ w.hookPanics t error = false) ∨
        ∃ r, w.fail t error k = ⟨w', k, .ended r⟩ ∧
          (Mode.ended r).panics = w.hookPanics t error) := by
  have hhook : ((w.countFailure t).task t).hook = (w.task t).hook := by
    rw [World.countFailure, task_modifyTask hw.exists_task]
  have hfailure : w.Turns t plain _ _ _ := hw.turns_failure error
  simp only [World.fail, hhook]
  split
  · next hnone =>
    simp only [hnone] at hfailure
    refine ⟨_, hfailure, .inr ⟨_, rfl, ?_⟩⟩
    simp [hookPanics, hnone, Mode.panics]
  · next hook hsome =>
    simp only [hsome] at hfailure
    obtain ⟨panicsOn, scripts⟩ := hook
    have hnoted : (((w.countFailure t).note (.hooked t error)).task t).hook =
        some ⟨panicsOn, scripts⟩ := hhook.trans hsome
    cases scripts with
    | nil =>
      simp only [takeHookScript, hnoted]
      refine ⟨_, hfailure, .inr ⟨_, rfl, ?_⟩⟩
      by_cases hp : panicsOn = some error <;> simp [hookPanics, hsome, hp, Mode.panics]
    | cons script rest =>
      obtain ⟨w', htake⟩ : ∃ w', ((w.countFailure t).note (.hooked t error)).takeHookScript t =
          some (script, w') := by
        simp only [takeHookScript, hnoted]
        exact ⟨_, rfl⟩
      obtain ⟨hscript, htaken⟩ := hfailure.reentrant.turns_takeHookScript htake
      simp only [htake]
      refine ⟨w', hfailure.cell ▸ hfailure.trans htaken, .inl ⟨script, _, rfl, hscript, ?_⟩⟩
      simp [hookPanics, hsome]

end World

/-! ### Callbacks at work -/

/-- A call of a callback to the task that a drain has returns so: a signal has raised the flag and
owes no drain, and a drain took nothing. -/
def Action.TurnedAway (c : Cell) : Action → Answer → Prop
  | .signalReady _, answer => answer = .flag false ∧ c.rearmed = true
  | .run _, answer => answer = .count 0
  | _, _ => True

/-- What runs of a callback of a task that a drain has, on top of the calls that wait for it. -/
inductive Callback (t : Nat) (c : Cell) : List Frame → Mode → Prop where
  /-- It has returned, or there is none. -/
  | idle {mode : Mode} : mode.panics = false → Callback t c [] mode
  | acts {rest : List Action} : (∀ a ∈ rest, a.Reentrant t) →
    Callback t c [.script rest] .running
  | acted {a : Action} {answer : Answer} {rest : List Action} : a.TurnedAway c answer →
    (∀ a ∈ rest, a.Reentrant t) → Callback t c [.acting a, .script rest] (.ended (.answer answer))
  | signals {point : Signal} {rest : List Action} : (point = .retry → c.rearmed = true) →
    (∀ a ∈ rest, a.Reentrant t) →
    Callback t c [.signal t point, .acting (.signalReady t), .script rest] .running
  | drains {rest : List Action} : (∀ a ∈ rest, a.Reentrant t) →
    Callback t c [.drain t .claim 0, .acting (.run t), .script rest] .running

theorem World.begin_of_looks {w : World} {a : Action} (h : a.looks = true) (k : List Frame) :
    ∃ answer, w.begin a k = w.answer answer k := by
  cases a with
  | queue | state | task | subscriptions | pendingJobs => exact ⟨_, rfl⟩
  | watcher i =>
    simp only [World.begin]
    split
    · exact ⟨_, rfl⟩
    · exact ⟨_, rfl⟩
  | _ => cases h

namespace Signal

variable {c : Cell}

theorem step_attempt_of_running (h : c.state = .running) :
    Signal.attempt.step c = (c, .goTo .raise) := by
  simp [step, Cell.exchange?, h]

theorem step_retry_of_running (h : c.state = .running) :
    Signal.retry.step c = (c, .done false) := by
  simp [step, Cell.exchange?, h]

end Signal

theorem Drain.step_claim_of_running {c : Cell} (h : c.state = .running) :
    Drain.claim.step c = (c, .done ()) := by
  simp [step, Cell.exchange?, h]

namespace Callback

variable {t : Nat} {w : World} {fs : List Frame} {mode : Mode}

theorem panics_eq_false {c : Cell} (h : Callback t c fs mode) : mode.panics = false := by
  cases h with
  | idle h => exact h
  | acts | acted | signals | drains => rfl

/-- A callback goes on above the calls that wait for it: what it pushes is in the queue, the drain
keeps the task, and a raised flag stays raised. -/
theorem step (hw : w.Reentrant t) (hrun : (w.task t).cell.state = .running)
    (h : Callback t (w.task t).cell fs mode) (hfs : fs ≠ []) (k : List Frame) :
    ∃ w' fs' mode' c, Machine.step ⟨w, fs ++ k, mode⟩ = ⟨w', fs' ++ k, mode'⟩ ∧
      w.Turns t plain w' c { pushed := Machine.pushed ⟨w, fs ++ k, mode⟩ } ∧ c.state = .running ∧
      ((w.task t).cell.rearmed = true → c.rearmed = true) ∧ Callback t c fs' mode' := by
  have hcell : w.Turns t plain _ _ {} := hw.turns_setCell (w.task t).cell
  cases h with
  | idle => exact absurd rfl hfs
  | @acts actions hall =>
    cases actions with
    | nil => exact ⟨w, [], _, _, rfl, hw.turns_refl, hrun, id, .idle rfl⟩
    | cons a rest =>
      obtain ⟨ha, hrest⟩ := List.forall_mem_cons.mp hall
      cases ha with
      | @push item hi =>
        have haway : Action.TurnedAway (w.task t).cell (.push t item) .nothing := trivial
        exact ⟨_, [.acting _, .script rest], _, _, rfl, hw.turns_push hi, hrun, id,
          .acted haway hrest⟩
      | signalReady =>
        exact ⟨w, [.signal t .attempt, .acting _, .script rest], _, _, rfl, hw.turns_refl, hrun, id,
          .signals (by rintro ⟨⟩) hrest⟩
      | run =>
        exact ⟨w, [.drain t .claim 0, .acting _, .script rest], _, _, rfl, hw.turns_refl, hrun, id,
          .drains hrest⟩
      | look hlook =>
        obtain ⟨answer, hm⟩ := World.begin_of_looks (w := w) hlook (.acting a :: .script rest :: k)
        have hpushed : Machine.pushed ⟨w, [.script (a :: rest)] ++ k, .running⟩ = [] := by
          cases a with
          | push => cases hlook
          | _ => rfl
        refine ⟨w, [.acting a, .script rest], _, _, hm, ?_, hrun, id, .acted ?_ hrest⟩
        · rw [hpushed]
          exact hw.turns_refl
        · cases a with
          | signalReady | run => cases hlook
          | _ => trivial
  | @acted a answer rest _ hrest =>
    exact ⟨_, [.script rest], _, _, rfl, hw.turns_did a answer, hrun, id, .acts hrest⟩
  | @signals point rest hretry hrest =>
    -- the drain has the task, so neither exchange of the signal succeeds
    cases point with
    | attempt =>
      refine ⟨_, [.signal t .raise, _, _], _, _, ?_, hcell, hrun, id,
        .signals (by rintro ⟨⟩) hrest⟩
      simp only [Machine.step, List.cons_append, World.advance,
        Signal.step_attempt_of_running hrun]
      rfl
    | raise =>
      have hraised : w.Turns t plain _ _ {} := hw.turns_setCell (w.task t).cell.rearm
      exact ⟨_, [.signal t .retry, _, _], _, _, rfl, hraised, hrun, fun _ => rfl,
        .signals (fun _ => rfl) hrest⟩
    | retry =>
      have haway : Action.TurnedAway (w.task t).cell (.signalReady t) (.flag false) :=
        ⟨rfl, hretry rfl⟩
      refine ⟨_, [_, _], _, _, ?_, hcell, hrun, id, .acted haway hrest⟩
      simp only [Machine.step, List.cons_append, World.advance, Signal.step_retry_of_running hrun]
      rfl
  | @drains rest hrest =>
    have haway : Action.TurnedAway (w.task t).cell (.run t) (.count 0) := rfl
    refine ⟨_, [_, _], _, _, ?_, hcell, hrun, id, .acted haway hrest⟩
    simp only [Machine.step, List.cons_append, World.advance, World.advanceDrain,
      Drain.step_claim_of_running hrun]
    rfl

end Callback

end StoreClient.Tasks

import StoreClient.Tasks.Run

/-! # What callbacks do

A task that is drained only by watchers with inline executors: its consumer and its failure hook
push, publish, resubscribe and start watchers as they like (`Action.Orderly`), and nobody stops a
watcher, signals or drains by hand.

In an orderly world every listener is a watcher that is at work for the task (`World.Hears`), so an
event that reaches one fires a signal.  While a drain has the task, such a signal only raises the
flag: whatever a callback does, it runs above the drain, leaves the state word as it is, and
changes the queue by what it pushes (`Frame.Inner.advance`, `Frame.Inner.resume`). -/

namespace StoreClient.Tasks

/-! ### Orderly callers -/

def Action.looks : Action → Bool
  | .queue _ | .state _ | .task _ | .watcher _ | .subscriptions _ | .pendingJobs => true
  | _ => false

mutual

/-- A caller pushes onto the queue of a task, publishes, starts watchers of the task that drain it
in the signalling call, or looks at something. -/
inductive Action.Orderly (t : Nat) : Action → Prop where
  | push {item : Item} : Item.Orderly t item → Action.Orderly t (.push t item)
  | publish (c : Nat) (key : Outcome ByteSeq) : Action.Orderly t (.publish c key)
  | resubscribe (c : Nat) : Action.Orderly t (.resubscribe c)
  | start (c : Nat) (pattern : Outcome ByteSeq) : Action.Orderly t (.start t c .inline pattern)
  | look {a : Action} : a.looks = true → Action.Orderly t a

/-- The queue hands the item out and does nothing else, and the consumer does what orderly callers
do before it returns, fails or panics. -/
inductive Item.Orderly (t : Nat) : Item → Prop where
  | mk {id : String} {onAccept : List Action} {ending : Ending} :
    (∀ a ∈ onAccept, Action.Orderly t a) → ending ≠ .breaksQueue →
      Item.Orderly t (.mk id [] onAccept ending)

end

namespace Item.Orderly

variable {t : Nat} {item : Item}

theorem onPoll_eq_nil (h : item.Orderly t) : item.onPoll = [] := by
  cases h; rfl

theorem onAccept (h : item.Orderly t) : ∀ a ∈ item.onAccept, a.Orderly t := by
  cases h; assumption

theorem polled_eq (h : item.Orderly t) : item.polled = .answer (.item item.id) := by
  cases h with
  | @mk id onAccept ending _ hending =>
    cases ending with
    | breaksQueue => exact absurd rfl hending
    | success | failure | panic => rfl

end Item.Orderly

/-- The items that an action puts into a queue. -/
def Action.pushed : Action → List Item
  | .push _ item => [item]
  | _ => []

/-! ### Orderly worlds -/

/-- Polls of the queue run no callback, and what waits in it and in the hook is orderly. -/
structure Task.Orderly (t : Nat) (task : Task) : Prop where
  queue : ∀ item ∈ task.queue, item.Orderly t
  onEmpty : task.onEmpty = []
  hook : ∀ hook, task.hook = some hook → ∀ script ∈ hook.scripts, ∀ a ∈ script, a.Orderly t

/-- The listener is a watcher that will submit a drain of the task to the signalling call. -/
def World.Hears (t : Nat) (w : World) : Listener → Prop
  | .watcher i => ∃ v, w.watchers[i]? = some v ∧ v.task = t ∧ v.executor = .inline ∧ v.active = true
  | .recorder _ => False

/-- All listeners are at work for the task, and nothing runs in the background. -/
structure World.Orderly (t : Nat) (w : World) : Prop where
  exists_task : t < w.tasks.length
  task : (w.task t).Orderly t
  listeners : ∀ c, ∀ s ∈ (w.channel c).subscriptions, w.Hears t s.listener
  spawned : w.spawned = []

/-- The item that a note says the consumer of a task was handed. -/
def Note.accepted? (t : Nat) : Note → Option String
  | .accepted task id => if task = t then some id else none
  | _ => none

/-- The items that the consumer of a task was handed, as the notes tell, oldest first. -/
def World.accepted (t : Nat) (w : World) : List String := w.notes.reverse.filterMap (·.accepted? t)

/-- A world goes over into one that is orderly and keeps every listener; there the task has a given
state and queue, and its consumer was handed given items. -/
structure World.Becomes (t : Nat) (w w' : World) (state : TaskState) (queue : List Item)
    (accepted : List String) : Prop where
  orderly : w'.Orderly t
  hears : ∀ l, w.Hears t l → w'.Hears t l
  state : (w'.task t).cell.state = state
  queue : (w'.task t).queue = queue
  accepted : w'.accepted t = accepted

namespace World

variable {t : Nat} {w w' : World}

theorem task_modifyTask (h : t < w.tasks.length) (f : Task → Task) :
    (w.modifyTask t f).task t = f (w.task t) := by
  simp [task, modifyTask, List.getElem?_eq_getElem h]

theorem accepted_note (n : Note) :
    (w.note n).accepted t = w.accepted t ++ (n.accepted? t).toList := by
  simp only [accepted, note, List.reverse_cons, List.filterMap_append]
  cases h : n.accepted? t <;> simp [h]

theorem Orderly.modifyTask (hw : w.Orderly t) {f : Task → Task} (hf : (f (w.task t)).Orderly t) :
    w.Becomes t (w.modifyTask t f) (f (w.task t)).cell.state (f (w.task t)).queue
      (w.accepted t) where
  orderly :=
    { exists_task := by simpa [World.modifyTask] using hw.exists_task
      task := by rwa [task_modifyTask hw.exists_task]
      listeners := hw.listeners
      spawned := hw.spawned }
  hears _ hl := hl
  state := by rw [task_modifyTask hw.exists_task]
  queue := by rw [task_modifyTask hw.exists_task]
  accepted := rfl

theorem Orderly.becomes (hw : w.Orderly t) :
    w.Becomes t w (w.task t).cell.state (w.task t).queue (w.accepted t) :=
  ⟨hw, fun _ hl => hl, rfl, rfl, rfl⟩

theorem Orderly.becomes_append_nil (hw : w.Orderly t) :
    w.Becomes t w (w.task t).cell.state ((w.task t).queue ++ []) (w.accepted t) :=
  (List.append_nil (w.task t).queue).symm ▸ hw.becomes

theorem Orderly.setCell (hw : w.Orderly t) (c : Cell) :
    w.Becomes t (w.setCell t c) c.state (w.task t).queue (w.accepted t) :=
  hw.modifyTask { queue := hw.task.queue, onEmpty := hw.task.onEmpty, hook := hw.task.hook }

theorem Orderly.push (hw : w.Orderly t) {item : Item} (hi : item.Orderly t) :
    w.Becomes t (w.push t item) (w.task t).cell.state ((w.task t).queue ++ [item])
      (w.accepted t) := by
  refine hw.modifyTask { queue := ?_, onEmpty := hw.task.onEmpty, hook := hw.task.hook }
  intro x hx
  rcases List.mem_append.mp hx with hx | hx
  · exact hw.task.queue x hx
  · exact List.mem_singleton.mp hx ▸ hi

theorem Orderly.countFailure (hw : w.Orderly t) :
    w.Becomes t (w.countFailure t) (w.task t).cell.state (w.task t).queue (w.accepted t) :=
  hw.modifyTask { queue := hw.task.queue, onEmpty := hw.task.onEmpty, hook := hw.task.hook }

theorem Orderly.note (hw : w.Orderly t) (n : Note) :
    w.Becomes t (w.note n) (w.task t).cell.state (w.task t).queue
      (w.accepted t ++ (n.accepted? t).toList) where
  orderly := ⟨hw.exists_task, hw.task, hw.listeners, hw.spawned⟩
  hears _ hl := hl
  state := rfl
  queue := rfl
  accepted := accepted_note n

theorem Orderly.pop? (hw : w.Orderly t) {item : Item} {w' : World}
    (h : w.pop? t = some (item, w')) : ∃ rest, (w.task t).queue = item :: rest ∧ item.Orderly t ∧
      w.Becomes t w' (w.task t).cell.state rest (w.accepted t) := by
  unfold World.pop? at h
  split at h
  · cases h
  · next item' rest hq =>
    cases h
    have hmem : ∀ x ∈ item :: rest, x.Orderly t := hq ▸ hw.task.queue
    refine ⟨rest, hq, hmem item List.mem_cons_self, hw.modifyTask ?_⟩
    exact
      { queue := fun x hx => hmem x (List.mem_cons_of_mem item hx)
        onEmpty := hw.task.onEmpty
        hook := hw.task.hook }

theorem queue_eq_nil_of_pop? (h : w.pop? t = none) : (w.task t).queue = [] := by
  unfold pop? at h
  split at h
  · assumption
  · cases h

theorem Orderly.takeHookScript (hw : w.Orderly t) {script : List Action} {w' : World}
    (h : w.takeHookScript t = some (script, w')) : (∀ a ∈ script, a.Orderly t) ∧
      w.Becomes t w' (w.task t).cell.state (w.task t).queue (w.accepted t) := by
  unfold World.takeHookScript at h
  split at h
  · next panicsOn script' rest hh =>
    cases h
    have hscripts := hw.task.hook _ hh
    refine ⟨hscripts script List.mem_cons_self, hw.modifyTask ?_⟩
    refine { queue := hw.task.queue, onEmpty := hw.task.onEmpty, hook := ?_ }
    rintro hook' ⟨⟩ script'' hs
    exact hscripts script'' (List.mem_cons_of_mem script hs)
  · cases h

theorem scripts_eq_nil_of_takeHookScript {hook : Hook} (h : w.takeHookScript t = none)
    (hh : (w.task t).hook = some hook) : hook.scripts = [] := by
  obtain ⟨panicsOn, scripts⟩ := hook
  cases scripts with
  | nil => rfl
  | cons script rest => simp [takeHookScript, hh] at h

theorem Orderly.takeOnEmpty (hw : w.Orderly t) : w.takeOnEmpty t = none := by
  unfold World.takeOnEmpty
  rw [hw.task.onEmpty]

theorem Becomes.trans {w₁ w₂ : World} {s s' : TaskState} {q q' : List Item} {l l' : List String}
    (h : w.Becomes t w₁ s q l) (h' : w₁.Becomes t w₂ s' q' l') : w.Becomes t w₂ s' q' l' :=
  { h' with hears := fun l hl => h'.hears l (h.hears l hl) }

/-- One that changes neither task nor notes can come after another. -/
theorem Becomes.then {w₁ w₂ : World} {s : TaskState} {q : List Item} {l : List String}
    (h : w.Becomes t w₁ s q l)
    (h' : w₁.Becomes t w₂ (w₁.task t).cell.state (w₁.task t).queue (w₁.accepted t)) :
    w.Becomes t w₂ s q l := by
  rw [h.state, h.queue, h.accepted] at h'
  exact h.trans h'

/-! ### Watchers that start -/

theorem Hears.addWatcher {l : Listener} (h : w.Hears t l) (v : Watcher) :
    (w.addWatcher v).Hears t l := by
  cases l with
  | watcher i =>
    obtain ⟨u, hu, hrest⟩ := h
    refine ⟨u, ?_, hrest⟩
    have hi := (List.getElem?_eq_some_iff.mp hu).1
    simpa only [World.addWatcher, List.getElem?_append_left hi] using hu
  | recorder i => exact h

theorem Orderly.addWatcher (hw : w.Orderly t) (v : Watcher) :
    w.Becomes t (w.addWatcher v) (w.task t).cell.state (w.task t).queue (w.accepted t) where
  orderly := ⟨hw.exists_task, hw.task, fun c s hs => (hw.listeners c s hs).addWatcher v, hw.spawned⟩
  hears _ hl := hl.addWatcher v
  state := rfl
  queue := rfl
  accepted := rfl

theorem hears_of_addWatcher {v : Watcher} (ht : v.task = t) (hx : v.executor = .inline)
    (ha : v.active = true) : (w.addWatcher v).Hears t (.watcher w.watchers.length) :=
  ⟨v, by simp [World.addWatcher], ht, hx, ha⟩

theorem mem_channel_setChannel {c d : Nat} {n : Notifier Listener} {s : Subscription Listener}
    (hs : s ∈ ((w.setChannel c n).channel d).subscriptions) :
    s ∈ n.subscriptions ∨ s ∈ (w.channel d).subscriptions := by
  simp only [channel, setChannel, List.getElem?_set] at hs ⊢
  split at hs
  · split at hs
    · exact .inl hs
    · cases hs
  · exact .inr hs

theorem Orderly.subscribe (hw : w.Orderly t) (c : Nat) (pattern : ByteSeq) {l : Listener}
    (hl : w.Hears t l) : w.Becomes t (w.subscribe c pattern l).2 (w.task t).cell.state
      (w.task t).queue (w.accepted t) where
  orderly := by
    refine ⟨hw.exists_task, hw.task, fun d s hs => ?_, hw.spawned⟩
    rcases mem_channel_setChannel hs with hs | hs
    · rcases List.mem_append.mp hs with hs | hs
      · exact hw.listeners c s hs
      · exact List.mem_singleton.mp hs ▸ hl
    · exact hw.listeners d s hs
  hears _ hl := hl
  state := rfl
  queue := rfl
  accepted := rfl

theorem Hears.modifyWatcher {l : Listener} (h : w.Hears t l) (i : Nat) (handle : Handle) :
    (w.modifyWatcher i ({ · with handle := handle })).Hears t l := by
  cases l with
  | watcher j =>
    obtain ⟨v, hv, hrest⟩ := h
    by_cases hij : i = j
    · exact ⟨{ v with handle := handle }, by simp [World.modifyWatcher, hv, hij], hrest⟩
    · exact ⟨v, by simp [World.modifyWatcher, hv, hij], hrest⟩
  | recorder j => exact h

theorem Orderly.modifyWatcher (hw : w.Orderly t) (i : Nat) (handle : Handle) :
    w.Becomes t (w.modifyWatcher i ({ · with handle := handle })) (w.task t).cell.state
      (w.task t).queue (w.accepted t) where
  orderly :=
    { hw with listeners := fun c s hs => (hw.listeners c s hs).modifyWatcher i handle }
  hears _ hl := hl.modifyWatcher i handle
  state := rfl
  queue := rfl
  accepted := rfl

theorem Hears.notify {l : Listener} (h : w.Hears t l) (e : Event) :
    ∃ i, l = .watcher i ∧ w.notify e l = (w, [.firing i .attempt]) := by
  cases l with
  | watcher i =>
    obtain ⟨v, hv, -, -, hactive⟩ := h
    exact ⟨i, rfl, by simp [World.notify, hv, hactive]⟩
  | recorder i => exact h.elim

end World

/-! ### Calls of callbacks -/

/-- A panic goes out of the innermost call. -/
def Mode.panics : Mode → Bool
  | .ended (.panic _) => true
  | _ => false

/-- What a caller's action sets off but for drains: deliveries, signals and starts. -/
def Frame.Outer (t : Nat) (w : World) : Frame → Prop
  | .firing i _ => w.Hears t (.watcher i)
  | .delivering _ rest _ => ∀ l ∈ rest, w.Hears t l
  | .starting _ _ => True
  | _ => False

def Frame.Callback (t : Nat) : Frame → Prop
  | .script rest => ∀ a ∈ rest, a.Orderly t
  | .acting _ => True
  | _ => False

/-- What runs for a consumer or a hook: a callback, or what its actions set off. -/
def Frame.Inner (t : Nat) (w : World) (f : Frame) : Prop := f.Callback t ∨ f.Outer t w

/-- The call will fire a signal. -/
def Frame.rouses : Frame → Bool
  | .firing _ _ => true
  | .delivering _ rest _ => !rest.isEmpty
  | _ => false

/-- The items that the next step of a call puts into a queue. -/
def Frame.pushed : Frame → List Item
  | .script (a :: _) => a.pushed
  | _ => []

/-- The action will reach a watcher: a subscription matches the changed key, some listener is told
that it is subscribed again, or a watcher starts. -/
inductive Action.Rouses (w : World) : Action → Prop where
  | publish {c : Nat} {key : ByteSeq} {listeners : List Listener} {s : Subscription Listener} :
    (w.channel c).interested key = .ok listeners → s ∈ (w.channel c).subscriptions →
      matchesKey s.pattern key = .ok true → Action.Rouses w (.publish c (.ok key))
  | resubscribe {c : Nat} : (w.channel c).listeners ≠ [] → Action.Rouses w (.resubscribe c)
  | start {t c : Nat} {executor : Executor} {pattern : ByteSeq} :
    Action.Rouses w (.start t c executor (.ok pattern))

namespace Notifier

variable {α : Type} {key : ByteSeq}

theorem exists_of_mem_select {subscriptions : List (Subscription α)} {listeners : List α}
    (h : select key subscriptions = .ok listeners) :
    ∀ l ∈ listeners, ∃ s ∈ subscriptions, s.listener = l := by
  induction subscriptions generalizing listeners with
  | nil => cases h; nofun
  | cons s rest ih =>
    have lift {listeners : List α} (h : select key rest = .ok listeners) :
        ∀ l ∈ listeners, ∃ s' ∈ s :: rest, s'.listener = l := by
      intro l hl
      obtain ⟨s', hs', rfl⟩ := ih h l hl
      exact ⟨s', List.mem_cons_of_mem s hs', rfl⟩
    unfold select at h
    split at h
    · cases h
    · cases hr : select key rest with
      | error e => rw [hr] at h; cases h
      | ok others =>
        rw [hr] at h
        cases h
        intro l hl
        rcases List.mem_cons.mp hl with rfl | hl
        · exact ⟨s, List.mem_cons_self, rfl⟩
        · exact lift hr l hl
    · exact lift h

theorem mem_of_select {subscriptions : List (Subscription α)} {listeners : List α}
    {s : Subscription α} (h : select key subscriptions = .ok listeners) (hs : s ∈ subscriptions)
    (hm : matchesKey s.pattern key = .ok true) : s.listener ∈ listeners := by
  induction subscriptions generalizing listeners with
  | nil => cases hs
  | cons s' rest ih =>
    unfold select at h
    split at h
    · cases h
    · cases hr : select key rest with
      | error e => rw [hr] at h; cases h
      | ok others =>
        rw [hr] at h
        cases h
        rcases List.mem_cons.mp hs with rfl | hs
        · exact List.mem_cons_self
        · exact List.mem_cons_of_mem s'.listener (ih hr hs)
    · next hm' =>
      rcases List.mem_cons.mp hs with rfl | hs
      · rw [hm] at hm'; cases hm'
      · exact ih h hs

end Notifier

namespace Frame

variable {t : Nat} {w w' : World} {f : Frame}

theorem Outer.mono (hw : ∀ l, w.Hears t l → w'.Hears t l) (hf : f.Outer t w) : f.Outer t w' := by
  cases f with
  | firing i point => exact hw (.watcher i) hf
  | delivering e rest count => exact fun l hl => hw l (hf l hl)
  | starting => trivial
  | _ => exact hf.elim

theorem Outer.pushed_eq_nil (hf : f.Outer t w) : f.pushed = [] := by
  cases f with
  | script => exact hf.elim
  | _ => rfl

theorem Inner.mono (hw : ∀ l, w.Hears t l → w'.Hears t l) (hf : f.Inner t w) : f.Inner t w' :=
  hf.imp_right (·.mono hw)

end Frame

theorem World.Orderly.begin_publish {t : Nat} {w : World} (hw : w.Orderly t) (c : Nat)
    (key : ByteSeq) (k : List Frame) :
    ∃ fs mode, w.begin (.publish c (.ok key)) k = ⟨w, fs ++ k, mode⟩ ∧
      (∀ f ∈ fs, f.Outer t w) ∧
      (Action.Rouses w (.publish c (.ok key)) →
        mode.panics = false ∧ ∃ f ∈ fs, f.rouses = true) := by
  cases hl : (w.channel c).interested key with
  | error e =>
    refine ⟨[], .ended (.panic (.failed e)), by simp [World.begin, hl, raise], by simp, ?_⟩
    rintro (⟨hok, -, -⟩ | - | -)
    rw [hl] at hok
    cases hok
  | ok listeners =>
    refine ⟨[.delivering (.keyChanged key) listeners listeners.length], .running,
      by simp [World.begin, hl, enter], ?_, ?_⟩
    · refine List.forall_mem_singleton.mpr fun l hmem => ?_
      obtain ⟨s, hs, rfl⟩ := Notifier.exists_of_mem_select hl l hmem
      exact hw.listeners c s hs
    · rintro (⟨hok, hs, hm⟩ | - | -)
      have hmem := Notifier.mem_of_select hl hs hm
      refine ⟨rfl, _, List.mem_singleton_self _, ?_⟩
      simpa [Frame.rouses] using List.ne_nil_of_mem hmem

/-- A watcher that starts hears that it is subscribed, so it fires its signal. -/
theorem World.Orderly.begin_start {t : Nat} {w : World} (hw : w.Orderly t) (c : Nat)
    (pattern : ByteSeq) (k : List Frame) :
    ∃ w' id, w.begin (.start t c .inline (.ok pattern)) k =
        ⟨w', .firing w.watchers.length .attempt :: .starting w.watchers.length id :: k, .running⟩ ∧
      w.Becomes t w' (w.task t).cell.state (w.task t).queue (w.accepted t) ∧
      w'.Hears t (.watcher w.watchers.length) := by
  let v : Watcher := ⟨t, c, .inline, pattern, true, .starting⟩
  let subscribed := (w.addWatcher v).subscribe c pattern (.watcher w.watchers.length)
  have hadd := hw.addWatcher v
  have hears : (w.addWatcher v).Hears t (.watcher w.watchers.length) :=
    hears_of_addWatcher rfl rfl rfl
  have hsub := hadd.orderly.subscribe c pattern hears
  obtain ⟨i, ⟨⟩, hn⟩ := (hsub.hears _ hears).notify .subscribed
  refine ⟨subscribed.2, subscribed.1, ?_, hadd.trans hsub, hsub.hears _ hears⟩
  simp only [World.begin]
  rw [hn]
  rfl

/-- An action begins: what it pushes is in the queue, and calls go on top of the stack that will
fire a signal if the action reaches a watcher. -/
theorem World.Orderly.begin {t : Nat} {w : World} {a : Action} (hw : w.Orderly t)
    (ha : a.Orderly t) (k : List Frame) : ∃ w' fs mode, w.begin a k = ⟨w', fs ++ k, mode⟩ ∧
      w.Becomes t w' (w.task t).cell.state ((w.task t).queue ++ a.pushed) (w.accepted t) ∧
      (∀ f ∈ fs, f.Outer t w') ∧
      (a.Rouses w → mode.panics = false ∧ ∃ f ∈ fs, f.rouses = true) := by
  have stay := hw.becomes_append_nil
  cases ha with
  | push hi => exact ⟨_, [], _, rfl, hw.push hi, by simp, by rintro ⟨⟩⟩
  | publish c key =>
    cases key with
    | error e => exact ⟨_, [], _, rfl, stay, by simp, by rintro ⟨⟩⟩
    | ok key =>
      obtain ⟨fs, mode, hbegin, houter, hrouses⟩ := hw.begin_publish c key k
      exact ⟨w, fs, mode, hbegin, stay, houter, hrouses⟩
  | resubscribe c =>
    refine ⟨w, [.delivering .subscribed (w.channel c).listeners (w.channel c).listeners.length],
      .running, rfl, stay, ?_, ?_⟩
    · refine List.forall_mem_singleton.mpr fun l hmem => ?_
      obtain ⟨s, hs, rfl⟩ := List.mem_map.mp hmem
      exact hw.listeners c s hs
    · rintro (- | hne | -)
      exact ⟨rfl, _, List.mem_singleton_self _, by simpa [Frame.rouses] using hne⟩
  | start c pattern =>
    have nothing : (Action.start t c .inline pattern).pushed = [] := rfl
    rw [nothing, List.append_nil]
    cases pattern with
    | error e => exact ⟨_, [], _, rfl, hw.addWatcher _, by simp, by rintro ⟨⟩⟩
    | ok pattern =>
      obtain ⟨w', id, hbegin, hbecomes, hears⟩ := hw.begin_start c pattern k
      refine ⟨w', [.firing w.watchers.length .attempt, .starting w.watchers.length id], .running,
        hbegin, hbecomes, ?_, fun _ => ⟨rfl, _, List.mem_cons_self, rfl⟩⟩
      exact List.forall_mem_cons.mpr ⟨hears, List.forall_mem_singleton.mpr trivial⟩
  | look hlook =>
    cases a with
    | queue | state | task | subscriptions | pendingJobs =>
      exact ⟨_, [], _, rfl, stay, by simp, by rintro ⟨⟩⟩
    | watcher i =>
      refine ⟨w, [], ((w.begin (.watcher i) k).mode), ?_, stay, by simp, by rintro ⟨⟩⟩
      simp only [World.begin]
      split <;> rfl
    | _ => cases hlook

/-! ### Signals -/

namespace Signal

/-- A signal to a task that a drain has leaves it there, and is owed no drain. -/
theorem step_of_running (s : Signal) {c : Cell} (h : c.state = .running) :
    (s.step c).1.state = .running ∧ (s.step c).2 ≠ .done true := by
  obtain ⟨state, rearmed⟩ := c
  subst h
  cases s <;> simp [step, Cell.exchange?, Cell.rearm]

/-- A signal to an idle task makes it ready and is owed a drain, or has still to try. -/
theorem step_of_waiting (s : Signal) {c : Cell} (h : c.state = .waiting) :
    (s.step c).1.state = .ready ∧ (s.step c).2 = .done true ∨
      (s.step c).1.state = .waiting ∧ ∃ point, (s.step c).2 = .goTo point := by
  obtain ⟨state, rearmed⟩ := c
  subst h
  cases s <;> simp [step, Cell.exchange?, Cell.rearm]

end Signal

/-- The innermost call goes over into calls of callbacks: the state word stays, and given items
are put into the queue. -/
def World.Serves (t : Nat) (w : World) (k : List Frame) (pushed : List Item) (m : Machine) : Prop :=
  ∃ w' fs mode, m = ⟨w', fs ++ k, mode⟩ ∧
    w.Becomes t w' (w.task t).cell.state ((w.task t).queue ++ pushed) (w.accepted t) ∧
    ∀ f ∈ fs, f.Inner t w'

theorem World.Orderly.serves {t : Nat} {w : World} (hw : w.Orderly t) (k : List Frame)
    (mode : Mode) : w.Serves t k [] ⟨w, k, mode⟩ :=
  ⟨w, [], mode, rfl, hw.becomes_append_nil, fun _ h => absurd h List.not_mem_nil⟩

namespace Frame

variable {t : Nat} {w : World} {f : Frame}

/-- A call that a caller's action set off goes on, unless it signals to a task that no drain has: it
goes over into such calls, and one that will fire a signal does so by another. -/
theorem Outer.advance (hw : w.Orderly t) (hf : f.Outer t w)
    (hfiring : (∃ i point, f = .firing i point) → (w.task t).cell.state = .running)
    (k : List Frame) : ∃ w' fs mode, w.advance k f = ⟨w', fs ++ k, mode⟩ ∧
      w.Becomes t w' (w.task t).cell.state (w.task t).queue (w.accepted t) ∧
      (∀ f ∈ fs, f.Outer t w') ∧ mode.panics = false ∧
      (f.rouses = true → (w.task t).cell.state = .running ∨ ∃ f ∈ fs, f.rouses = true) := by
  cases f with
  | firing i point =>
    have hrun := hfiring ⟨i, point, rfl⟩
    obtain ⟨v, hv, ht, hx, ha⟩ := id hf
    obtain ⟨hstate, hmove⟩ := point.step_of_running hrun
    have hset := hw.setCell (point.step (w.task t).cell).1
    rw [hstate, ← hrun] at hset
    rw [← ht] at hmove hset ⊢
    simp only [World.advance, hv]
    split
    · next point' hp =>
      refine ⟨_, [.firing i point'], .running, rfl, hset, ?_, rfl, fun _ => .inl (by rwa [ht])⟩
      exact List.forall_mem_singleton.mpr (hset.hears (.watcher i) (ht ▸ hf))
    · exact ⟨_, [], _, rfl, hset, by simp, rfl, fun _ => .inl (by rwa [ht])⟩
    · next hp => exact absurd hp hmove
  | delivering e rest count =>
    cases rest with
    | nil => exact ⟨w, [], _, rfl, hw.becomes, by simp, rfl, by rintro ⟨⟩⟩
    | cons l rest =>
      obtain ⟨i, rfl, hn⟩ := (hf l List.mem_cons_self).notify e
      refine ⟨w, [.firing i .attempt, .delivering e rest count], .running, ?_, hw.becomes, ?_, rfl,
        fun _ => .inr ⟨_, List.mem_cons_self, rfl⟩⟩
      · simp only [World.advance, hn]
        rfl
      · refine List.forall_mem_cons.mpr ⟨hf _ List.mem_cons_self, List.forall_mem_singleton.mpr ?_⟩
        exact fun l hl => hf l (List.mem_cons_of_mem _ hl)
  | starting i id => exact ⟨_, [], _, rfl, hw.modifyWatcher i _, by simp, rfl, by rintro ⟨⟩⟩
  | _ => exact hf.elim

/-- A signal to an idle task makes it ready and begins a drain, or has still to try. -/
theorem Outer.advance_firing {i : Nat} {point : Signal} (hw : w.Orderly t)
    (hf : (Frame.firing i point).Outer t w) (hs : (w.task t).cell.state = .waiting)
    (k : List Frame) : ∃ w' f, w.advance k (.firing i point) = ⟨w', f :: k, .running⟩ ∧
      (f = .drain t .claim 0 ∧ w.Becomes t w' .ready (w.task t).queue (w.accepted t) ∨
        ∃ point', f = .firing i point' ∧
          w.Becomes t w' .waiting (w.task t).queue (w.accepted t)) := by
  obtain ⟨v, hv, rfl, hx, ha⟩ := id hf
  have hset := hw.setCell (point.step (w.task v.task).cell).1
  simp only [World.advance, hv]
  rcases point.step_of_waiting hs with ⟨hstate, hmove⟩ | ⟨hstate, point', hmove⟩
  · rw [hstate] at hset
    simp only [hmove, hx]
    exact ⟨_, _, rfl, .inl ⟨rfl, hset⟩⟩
  · rw [hstate] at hset
    simp only [hmove]
    exact ⟨_, _, rfl, .inr ⟨point', rfl, hset⟩⟩

end Frame

def World.hookPanics (t : Nat) (w : World) (error : String) : Bool :=
  match (w.task t).hook with
  | some ⟨panicsOn, []⟩ => panicsOn = some error
  | _ => false

namespace World.Orderly

variable {t : Nat} {w : World}

/-- The failure of a consumer is counted and shown to the hook, which runs a callback or ends. -/
theorem fail (hw : w.Orderly t) (error : String) (k : List Frame) :
    ∃ w', w.Becomes t w' (w.task t).cell.state (w.task t).queue (w.accepted t) ∧
      ((∃ script r, w.fail t error k = ⟨w', .script script :: .ending r :: k, .running⟩ ∧
          ∀ a ∈ script, a.Orderly t) ∨
        ∃ r, w.fail t error k = ⟨w', k, .ended r⟩ ∧
          (w.hookPanics t error = false → (Mode.ended r).panics = false)) := by
  have hcount := hw.countFailure
  have hhook : ((w.countFailure t).task t).hook = (w.task t).hook := by
    rw [World.countFailure, task_modifyTask hw.exists_task]
  simp only [World.fail, hhook]
  split
  · exact ⟨_, hcount, .inr ⟨_, rfl, fun _ => rfl⟩⟩
  · next hook hsome =>
    have hnote :=
      hcount.then (by simpa [Note.accepted?] using hcount.orderly.note (.hooked t error))
    split
    · next script w' htake =>
      obtain ⟨hscript, htaken⟩ := hnote.orderly.takeHookScript htake
      exact ⟨w', hnote.then htaken, .inl ⟨script, _, rfl, hscript⟩⟩
    · next htake =>
      refine ⟨_, hnote, .inr ⟨_, rfl, fun hpanics => ?_⟩⟩
      obtain ⟨panicsOn, scripts⟩ := hook
      obtain rfl : scripts = [] := World.scripts_eq_nil_of_takeHookScript htake (hhook.trans hsome)
      have hne : panicsOn ≠ some error := by simpa [World.hookPanics, hsome] using hpanics
      simp [hne, Mode.panics]

end World.Orderly

namespace Frame

variable {t : Nat} {w : World} {f : Frame}

theorem Outer.resume_answer (hf : f.Outer t w) (a : Answer) (k : List Frame) :
    w.resume k (.answer a) f = w.enter [f] k := by
  cases f with
  | firing | delivering | starting => rfl
  | _ => exact hf.elim

theorem Outer.resume_panic (hf : f.Outer t w) (p : Payload) (k : List Frame) :
    w.resume k (.panic p) f = w.raise p k := by
  cases f with
  | firing | delivering | starting => rfl
  | _ => exact hf.elim

/-- While a drain has the task, a call above it goes over into such calls; what it pushes is in
the queue. -/
theorem Inner.advance (hw : w.Orderly t) (hf : f.Inner t w)
    (hrun : (w.task t).cell.state = .running) (k : List Frame) :
    w.Serves t k f.pushed (w.advance k f) := by
  rcases hf with hf | hf
  · cases f with
    | script rest =>
      cases rest with
      | nil => exact hw.serves k _
      | cons a rest =>
        obtain ⟨w', fs, mode, hm, hbecomes, hfs, -⟩ :=
          hw.begin (hf a List.mem_cons_self) (.acting a :: .script rest :: k)
        refine ⟨w', fs ++ [.acting a, .script rest], mode, ?_, hbecomes, ?_⟩
        · simpa [World.advance] using hm
        · simp only [List.mem_append, List.mem_cons, List.not_mem_nil, or_false]
          rintro f (hf' | rfl | rfl)
          · exact .inr (hfs f hf')
          · exact .inl trivial
          · exact .inl fun a' ha' => hf a' (List.mem_cons_of_mem a ha')
    | acting => exact hw.serves k _
    | _ => exact hf.elim
  · obtain ⟨w', fs, mode, hm, hbecomes, hfs, -, -⟩ := hf.advance hw (fun _ => hrun) k
    exact ⟨w', fs, mode, hm, by simpa [hf.pushed_eq_nil] using hbecomes, fun f h => .inr (hfs f h)⟩

theorem Inner.resume (hw : w.Orderly t) (hf : f.Inner t w) (r : Result) (k : List Frame) :
    w.Serves t k [] (w.resume k r f) := by
  have again : w.Serves t k [] (w.enter [f] k) :=
    ⟨w, [f], .running, rfl, hw.becomes_append_nil, List.forall_mem_singleton.mpr hf⟩
  have leave (p : Payload) : w.Serves t k [] (w.raise p k) := hw.serves k _
  rcases id hf with hc | ho
  · cases f with
    | script =>
      cases r with
      | answer => exact again
      | panic p => exact leave p
    | acting a =>
      cases r with
      | answer answer =>
        exact ⟨_, [], _, rfl, by simpa [Note.accepted?] using hw.note (.did a answer), by simp⟩
      | panic p => exact leave p
    | _ => exact hc.elim
  · cases r with
    | answer a => exact ho.resume_answer a k ▸ again
    | panic p => exact ho.resume_panic p k ▸ leave p

end Frame

end StoreClient.Tasks

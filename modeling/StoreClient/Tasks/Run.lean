import StoreClient.Tasks.Machine

/-! # Every action ends

A machine stops after finitely many steps, because callbacks are finite: `Machine.budget` counts
the callbacks that are left, and each step that does not use one of them up lets `Machine.heat`
sink, which counts the calls that can still happen in between (`Machine.step_decreases`).
`World.perform` runs an action to its end. -/

namespace StoreClient.Tasks

-- sums begin with the numeral, also where another zero of `Nat` is in scope
attribute [local instance (2000)] Zero.ofOfNat0

/-! ### The measure -/

/-- The callbacks that a task still holds. -/
noncomputable def Task.budget (t : Task) : Nat :=
  sizeOf t.queue + sizeOf t.onEmpty + match t.hook with
    | some h => sizeOf h.scripts
    | none => 0

noncomputable def Recorder.budget (r : Recorder) : Nat := sizeOf r.onKey + sizeOf r.onSubscribed

noncomputable def World.budget (w : World) : Nat :=
  (w.tasks.map Task.budget).sum + (w.recorders.map Recorder.budget).sum

/-- A raised flag makes a drain poll once more. -/
def Cell.heat (c : Cell) : Nat := if c.rearmed then 6 else 0

def World.heat (w : World) : Nat :=
  (w.tasks.map (·.cell.heat)).sum + 9 * (w.deferred.length + w.spawned.length)

noncomputable def Frame.budget : Frame → Nat
  | .script rest => sizeOf rest
  | .handing _ item => sizeOf item.onAccept
  | _ => 0

def Frame.heat : Frame → Nat
  | .signal _ .attempt => 10
  | .signal _ .raise => 9
  | .signal _ .retry => 2
  | .firing _ .attempt => 19
  | .firing _ .raise => 18
  | .firing _ .retry => 11
  | .drain _ .claim _ => 8
  | .drain _ .clear _ => 7
  | .drain _ .poll _ => 6
  | .drain _ .release _ => 5
  | .drain _ .swap _ => 3
  | .drain _ .reclaim _ => 8
  | .drain _ .abandon _ => 3
  | .handing _ _ => 5
  | .delivering _ rest _ => 2 + 20 * rest.length
  | _ => 2

def Mode.heat : Mode → Nat
  | .running => 0
  | .ended _ => 1

noncomputable def stackBudget (k : List Frame) : Nat := (k.map Frame.budget).sum
def stackHeat (k : List Frame) : Nat := (k.map Frame.heat).sum

/-- The callbacks that a machine has not used up. -/
noncomputable def Machine.budget (m : Machine) : Nat := m.world.budget + stackBudget m.stack

/-- The steps that it can take before it needs another callback. -/
def Machine.heat (m : Machine) : Nat := m.world.heat + stackHeat m.stack + m.mode.heat

@[simp] theorem stackBudget_nil : stackBudget [] = 0 := rfl
@[simp] theorem stackBudget_cons (f : Frame) (k : List Frame) :
    stackBudget (f :: k) = f.budget + stackBudget k := List.sum_cons
@[simp] theorem stackBudget_append (a b : List Frame) :
    stackBudget (a ++ b) = stackBudget a + stackBudget b := by
  simp only [stackBudget, List.map_append, List.sum_append]

@[simp] theorem stackHeat_nil : stackHeat [] = 0 := rfl
@[simp] theorem stackHeat_cons (f : Frame) (k : List Frame) :
    stackHeat (f :: k) = f.heat + stackHeat k := List.sum_cons
@[simp] theorem stackHeat_append (a b : List Frame) :
    stackHeat (a ++ b) = stackHeat a + stackHeat b := by
  simp only [stackHeat, List.map_append, List.sum_append]

theorem Frame.two_le_heat (f : Frame) : 2 ≤ f.heat := by
  unfold Frame.heat
  split <;> omega

/-! ### What the operations of a world cost -/

/-- A new element at a place changes a sum by the difference of the two weights. -/
theorem sum_map_modify {α : Type} (g : α → Nat) (f : α → α) (l : List α) (i : Nat) {a : α}
    (h : l[i]? = some a) : ((l.modify i f).map g).sum + g a = (l.map g).sum + g (f a) := by
  induction l generalizing i with
  | nil => cases h
  | cons x l ih =>
    cases i with
    | zero =>
      cases h
      simp only [List.modify_zero_cons, List.map_cons, List.sum_cons]
      omega
    | succ i =>
      have hrest := ih i h
      simp only [List.modify_succ_cons, List.map_cons, List.sum_cons]
      omega

namespace World

theorem budget_modifyTask {w : World} {t : Nat} (f : Task → Task) {a : Task}
    (h : w.tasks[t]? = some a) :
    (w.modifyTask t f).budget + a.budget = w.budget + (f a).budget := by
  have := sum_map_modify Task.budget f w.tasks t h
  simp only [modifyTask, budget]
  omega

theorem heat_modifyTask {w : World} {t : Nat} (f : Task → Task) {a : Task}
    (h : w.tasks[t]? = some a) :
    (w.modifyTask t f).heat + a.cell.heat = w.heat + (f a).cell.heat := by
  have := sum_map_modify (fun t : Task => t.cell.heat) f w.tasks t h
  simp only [modifyTask, heat]
  omega

theorem heat_modifyTask_of_cell {w : World} {t : Nat} {f : Task → Task} {a : Task}
    (h : w.tasks[t]? = some a) (hc : (f a).cell = a.cell) : (w.modifyTask t f).heat = w.heat := by
  have := heat_modifyTask f h
  rw [hc] at this
  omega

theorem modifyTask_of_none {w : World} {t : Nat} (f : Task → Task) (h : w.tasks[t]? = none) :
    w.modifyTask t f = w := by
  rw [modifyTask, List.modify_eq_self (List.getElem?_eq_none_iff.mp h)]

theorem task_of_some {w : World} {t : Nat} {a : Task} (h : w.tasks[t]? = some a) :
    w.task t = a := by simp [task, h]

theorem task_of_none {w : World} {t : Nat} (h : w.tasks[t]? = none) : w.task t = {} := by
  simp [task, h]

@[simp] theorem budget_note (w : World) (n : Note) : (w.note n).budget = w.budget := rfl
@[simp] theorem heat_note (w : World) (n : Note) : (w.note n).heat = w.heat := rfl

@[simp] theorem budget_setCell (w : World) (t : Nat) (c : Cell) :
    (w.setCell t c).budget = w.budget := by
  cases h : w.tasks[t]? with
  | none => rw [setCell, modifyTask_of_none _ h]
  | some a =>
    have := budget_modifyTask ({ · with cell := c }) h
    simp only [Task.budget] at this
    rw [setCell]
    omega

/-- A cell's new flag heats a world, its old one cools it. -/
theorem heat_setCell (w : World) (t : Nat) (c : Cell) :
    (w.setCell t c).heat + (w.task t).cell.heat ≤ w.heat + c.heat := by
  cases h : w.tasks[t]? with
  | none =>
    rw [setCell, modifyTask_of_none _ h, task_of_none h]
    have : Cell.heat ({} : Task).cell = 0 := rfl
    omega
  | some a =>
    have := heat_modifyTask ({ · with cell := c }) h
    rw [setCell, task_of_some h]
    exact Nat.le_of_eq this

theorem pop?_eq_some {w w' : World} {t : Nat} {item : Item} (h : w.pop? t = some (item, w')) :
    w'.budget + sizeOf item < w.budget ∧ w'.heat = w.heat := by
  unfold pop? at h
  split at h
  · simp at h
  · next rest hq =>
    simp only [Option.some.injEq, Prod.mk.injEq] at h
    obtain ⟨rfl, rfl⟩ := h
    cases ht : w.tasks[t]? with
    | none => simp [task_of_none ht] at hq
    | some a =>
      rw [task_of_some ht] at hq
      have hb := budget_modifyTask ({ · with queue := rest }) ht
      simp only [Task.budget, hq, List.cons.sizeOf_spec] at hb
      exact ⟨by omega, heat_modifyTask_of_cell ht rfl⟩

theorem takeOnEmpty_eq_some {w w' : World} {t : Nat} {script : List Action}
    (h : w.takeOnEmpty t = some (script, w')) :
    w'.budget + sizeOf script < w.budget ∧ w'.heat = w.heat := by
  unfold takeOnEmpty at h
  split at h
  · simp at h
  · next rest hq =>
    simp only [Option.some.injEq, Prod.mk.injEq] at h
    obtain ⟨rfl, rfl⟩ := h
    cases ht : w.tasks[t]? with
    | none => simp [task_of_none ht] at hq
    | some a =>
      rw [task_of_some ht] at hq
      have hb := budget_modifyTask ({ · with onEmpty := rest }) ht
      simp only [Task.budget, hq, List.cons.sizeOf_spec] at hb
      exact ⟨by omega, heat_modifyTask_of_cell ht rfl⟩

theorem takeHookScript_eq_some {w w' : World} {t : Nat} {script : List Action}
    (h : w.takeHookScript t = some (script, w')) :
    w'.budget + sizeOf script < w.budget ∧ w'.heat = w.heat := by
  unfold takeHookScript at h
  split at h
  · next panicsOn _ rest hq =>
    simp only [Option.some.injEq, Prod.mk.injEq] at h
    obtain ⟨rfl, rfl⟩ := h
    cases ht : w.tasks[t]? with
    | none => simp [task_of_none ht] at hq
    | some a =>
      rw [task_of_some ht] at hq
      have hb := budget_modifyTask ({ · with hook := some ⟨panicsOn, rest⟩ }) ht
      simp only [Task.budget, hq, List.cons.sizeOf_spec] at hb
      exact ⟨by omega, heat_modifyTask_of_cell ht rfl⟩
  · simp at h

theorem countFailure_cost (w : World) (t : Nat) :
    (w.countFailure t).budget = w.budget ∧ (w.countFailure t).heat = w.heat := by
  cases h : w.tasks[t]? with
  | none => rw [countFailure, modifyTask_of_none _ h]; exact ⟨rfl, rfl⟩
  | some a =>
    have hb := budget_modifyTask
      (fun task => { task with failures := task.failures + 1 }) h
    simp only [Task.budget] at hb
    rw [countFailure]
    exact ⟨by omega, heat_modifyTask_of_cell h rfl⟩

theorem budget_push (w : World) (t : Nat) (item : Item) :
    (w.push t item).budget ≤ w.budget + sizeOf item + 1 := by
  cases h : w.tasks[t]? with
  | none => rw [push, modifyTask_of_none _ h]; omega
  | some a =>
    have hb := budget_modifyTask
      (fun task => { task with queue := task.queue ++ [item] }) h
    have hs : ∀ q : List Item, sizeOf (q ++ [item]) = sizeOf q + sizeOf item + 1 := by
      intro q
      induction q with
      | nil =>
        simp only [List.nil_append, List.cons.sizeOf_spec, List.nil.sizeOf_spec]
      | cons x q ih =>
        simp only [List.cons_append, List.cons.sizeOf_spec, ih]
        omega
    simp only [Task.budget, hs] at hb
    rw [push]
    omega

@[simp] theorem budget_signalWaiting (w : World) (t : Nat) :
    (w.signalWaiting t).budget = w.budget := budget_setCell ..

@[simp] theorem budget_stop (w : World) (i : Nat) : (w.stop i).budget = w.budget := by
  unfold stop
  split
  · rfl
  · split
    · rfl
    · rw [budget_signalWaiting]
      rfl

theorem budget_modifyRecorder {w : World} {i : Nat} (f : Recorder → Recorder) {r : Recorder}
    (h : w.recorders[i]? = some r) :
    (w.modifyRecorder i f).budget + r.budget = w.budget + (f r).budget := by
  have := sum_map_modify Recorder.budget f w.recorders i h
  simp only [modifyRecorder, budget]
  omega

theorem takeOnKey_eq_some {w w' : World} {i : Nat} {script : List Action}
    (h : w.takeOnKey i = some (script, w')) :
    w'.budget + sizeOf script < w.budget ∧ w'.heat = w.heat := by
  unfold takeOnKey at h
  split at h
  · next c s rest o sub hr =>
    simp only [Option.some.injEq, Prod.mk.injEq] at h
    obtain ⟨rfl, rfl⟩ := h
    have hb := budget_modifyRecorder (fun _ => (⟨c, rest, o, sub⟩ : Recorder)) hr
    simp only [Recorder.budget, List.cons.sizeOf_spec] at hb
    exact ⟨by omega, rfl⟩
  · simp at h

theorem takeOnSubscribed_eq_some {w w' : World} {i : Nat} {script : List Action}
    (h : w.takeOnSubscribed i = some (script, w')) :
    w'.budget + sizeOf script < w.budget ∧ w'.heat = w.heat := by
  unfold takeOnSubscribed at h
  split at h
  · next c k s rest sub hr =>
    simp only [Option.some.injEq, Prod.mk.injEq] at h
    obtain ⟨rfl, rfl⟩ := h
    have hb := budget_modifyRecorder (fun _ => (⟨c, k, rest, sub⟩ : Recorder)) hr
    simp only [Recorder.budget, List.cons.sizeOf_spec] at hb
    exact ⟨by omega, rfl⟩
  · simp at h

theorem budget_subscribed (w : World) (i : Nat) (sub : Option Nat) :
    (w.modifyRecorder i ({ · with subscription := sub })).budget = w.budget := by
  cases h : w.recorders[i]? with
  | none => rw [modifyRecorder, List.modify_eq_self (List.getElem?_eq_none_iff.mp h)]
  | some r =>
    have := budget_modifyRecorder ({ · with subscription := sub }) h
    simp only [Recorder.budget] at this
    omega

theorem submit_cost (w : World) (executor : Executor) (t : Nat) :
    (w.submit executor t).budget = w.budget ∧ (w.submit executor t).heat ≤ w.heat + 9 := by
  cases executor <;> refine ⟨rfl, ?_⟩ <;>
    simp only [submit, heat, List.length_append, List.length_cons, List.length_nil] <;> omega

/-- A notification uses up a callback, or costs a signal at most. -/
theorem notify_cost (w : World) (e : Event) (l : Listener) :
    (w.notify e l).1.budget + stackBudget (w.notify e l).2 < w.budget ∨
      ((w.notify e l).1.budget + stackBudget (w.notify e l).2 = w.budget ∧
        (w.notify e l).1.heat + stackHeat (w.notify e l).2 ≤ w.heat + 19) := by
  cases l with
  | watcher i =>
    right
    simp only [notify]
    split
    · split <;> simp [Frame.budget, Frame.heat]
    · simp
  | recorder i =>
    cases e with
    | keyChanged key =>
      simp only [notify]
      split
      · right; simp [Frame.budget, Frame.heat]
      · next bytes _ =>
        cases h : (w.note (.keyChanged i bytes)).takeOnKey i with
        | none => right; simp [runNext]
        | some p =>
          left
          obtain ⟨script, w'⟩ := p
          have := (takeOnKey_eq_some h).1
          simpa [runNext, Frame.budget] using this
    | subscribed =>
      simp only [notify]
      cases h : (w.note (.subscribed i)).takeOnSubscribed i with
      | none => right; simp [runNext]
      | some p =>
        left
        obtain ⟨script, w'⟩ := p
        have := (takeOnSubscribed_eq_some h).1
        simpa [runNext, Frame.budget] using this

theorem notify_budget_le (w : World) (e : Event) (l : Listener) :
    (w.notify e l).1.budget + stackBudget (w.notify e l).2 ≤ w.budget := by
  rcases w.notify_cost e l with h | h
  · exact Nat.le_of_lt h
  · exact Nat.le_of_eq h.1

/-! ### What actions cost -/

theorem budget_answer (w : World) (a : Answer) (k : List Frame) :
    (w.answer a k).budget = w.budget + stackBudget k := rfl

theorem budget_raise (w : World) (p : Payload) (k : List Frame) :
    (w.raise p k).budget = w.budget + stackBudget k := rfl

theorem budget_enter (w : World) (frames k : List Frame) :
    (w.enter frames k).budget = w.budget + stackBudget frames + stackBudget k := by
  simp only [enter, Machine.budget, stackBudget_append]
  omega

theorem budget_addRecorder (w : World) (r : Recorder) :
    (w.addRecorder r).budget = w.budget + r.budget := by
  simp only [addRecorder, budget, List.map_append, List.sum_append, List.map_cons, List.map_nil,
    List.sum_cons, List.sum_nil]
  omega

/-- Telling a listener above a call that holds no callback. -/
theorem budget_notify_le (w : World) (e : Event) (l : Listener) {f : Frame} (hf : f.budget = 0)
    (k : List Frame) :
    ((w.notify e l).1.enter ((w.notify e l).2 ++ [f]) k).budget ≤ w.budget + stackBudget k := by
  have := w.notify_budget_le e l
  simp only [budget_enter, stackBudget_append, stackBudget_cons, stackBudget_nil, hf]
  omega

theorem begin_poll_cost (w : World) (t : Nat) (k : List Frame) :
    (w.begin (.poll t) k).budget ≤ w.budget + stackBudget k := by
  simp only [begin]
  split
  · next item w' h =>
    have := (pop?_eq_some h).1
    have := item.sizeOf_callbacks_lt
    simp only [budget_enter, stackBudget_cons, stackBudget_nil, Frame.budget]
    omega
  · split
    · next script w' h =>
      have := (takeOnEmpty_eq_some h).1
      simp only [budget_enter, stackBudget_cons, stackBudget_nil, Frame.budget]
      omega
    · exact Nat.le_refl _

theorem begin_start_cost (w : World) (t c : Nat) (executor : Executor)
    (pattern : Outcome ByteSeq) (k : List Frame) :
    (w.begin (.start t c executor pattern) k).budget ≤ w.budget + stackBudget k := by
  cases pattern with
  | error f => exact Nat.le_refl _
  | ok pattern =>
    have h := budget_notify_le
      ((w.addWatcher ⟨t, c, executor, pattern, true, .starting⟩).subscribe c pattern
        (.watcher w.watchers.length)).2 .subscribed (.watcher w.watchers.length)
      (f := .starting w.watchers.length (w.channel c).nextId.toNat) rfl k
    exact h

theorem begin_subscribe_cost (w : World) (c : Nat) (pattern : Outcome ByteSeq)
    (onKey onSubscribed : List (List Action)) (k : List Frame) :
    (w.begin (.subscribe c pattern onKey onSubscribed) k).budget ≤
      w.budget + (sizeOf onKey + sizeOf onSubscribed) + stackBudget k := by
  have hjoined := w.budget_addRecorder ⟨c, onKey, onSubscribed, none⟩
  rw [Recorder.budget] at hjoined
  rw [← hjoined]
  cases pattern with
  | error f => exact Nat.le_refl _
  | ok pattern =>
    have h := budget_notify_le
      ((w.addRecorder ⟨c, onKey, onSubscribed, none⟩).subscribe c pattern
        (.recorder w.recorders.length)).2 .subscribed (.recorder w.recorders.length)
      (f := .subscribing w.recorders.length (w.channel c).nextId.toNat) rfl k
    exact h

theorem begin_publish_cost (w : World) (c : Nat) (key : Outcome ByteSeq) (k : List Frame) :
    (w.begin (.publish c key) k).budget ≤ w.budget + stackBudget k := by
  cases key with
  | error f => exact Nat.le_refl _
  | ok key =>
    simp only [begin]
    split
    · rw [budget_enter]
      exact Nat.le_refl _
    · exact Nat.le_refl _

theorem begin_stop_cost (w : World) (i : Nat) (k : List Frame) :
    (w.begin (.stop i) k).budget ≤ w.budget + stackBudget k := by
  simp only [begin]
  split
  · exact Nat.le_of_eq (by rw [budget_answer, budget_stop])
  · exact Nat.le_refl _

theorem begin_drop_cost (w : World) (i : Nat) (k : List Frame) :
    (w.begin (.drop i) k).budget ≤ w.budget + stackBudget k := by
  have hdropped : ((w.stop i).modifyWatcher i ({ · with handle := .dropped })).budget =
      (w.stop i).budget := rfl
  simp only [begin]
  split
  · exact Nat.le_of_eq (by rw [budget_answer, hdropped, budget_stop])
  · exact Nat.le_refl _

/-- Beginning an action uses no more than the action itself holds. -/
theorem begin_cost (w : World) (a : Action) (k : List Frame) :
    (w.begin a k).budget ≤ w.budget + sizeOf a + stackBudget k := by
  have free (h : (w.begin a k).budget ≤ w.budget + stackBudget k) :
      (w.begin a k).budget ≤ w.budget + sizeOf a + stackBudget k := by omega
  cases a with
  | push t item =>
    have hpush := w.budget_push t item
    simp only [begin, budget_answer, Action.push.sizeOf_spec]
    omega
  | subscribe c pattern onKey onSubscribed =>
    have hsubscribe := w.begin_subscribe_cost c pattern onKey onSubscribed k
    rw [Action.subscribe.sizeOf_spec]
    omega
  | poll t => exact free (w.begin_poll_cost t k)
  | start t c executor pattern => exact free (w.begin_start_cost t c executor pattern k)
  | publish c key => exact free (w.begin_publish_cost c key k)
  | stop i => exact free (w.begin_stop_cost i k)
  | drop i => exact free (w.begin_drop_cost i k)
  | signalWaiting t =>
    refine free (Nat.le_of_eq ?_)
    rw [begin, budget_answer, budget_signalWaiting]
  | signalReady | run | resubscribe | jobs =>
    refine free ?_
    rw [begin, budget_enter]
    exact Nat.le_refl _
  | queue | state | task | subscriptions | pendingJobs => exact free (Nat.le_refl _)
  | watcher i =>
    refine free ?_
    simp only [begin]
    split <;> exact Nat.le_refl _
  | unsubscribe i =>
    refine free ?_
    simp only [begin]
    split <;> exact Nat.le_refl _
  | job place =>
    refine free ?_
    simp only [begin]
    split
    · rw [budget_enter]
      exact Nat.le_refl _
    · exact Nat.le_refl _

end World

/-! ### Steps -/

/-- A machine is nearer to its end than a budget and a heat. -/
def Machine.Below (m : Machine) (budget heat : Nat) : Prop :=
  m.budget < budget ∨ (m.budget = budget ∧ m.heat < heat)

theorem Machine.Below.mono {m : Machine} {b b' h h' : Nat} (hm : m.Below b h) (hb : b = b')
    (hh : h ≤ h') : m.Below b' h' := by
  subst hb
  rcases hm with hm | ⟨he, hm⟩
  · exact .inl hm
  · exact .inr ⟨he, Nat.lt_of_lt_of_le hm hh⟩

theorem World.fail_below (w : World) (t : Nat) (error : String) (k : List Frame) :
    (w.fail t error k).Below (w.budget + stackBudget k) (w.heat + stackHeat k + 2) := by
  obtain ⟨hb, hh⟩ := w.countFailure_cost t
  simp only [fail]
  split
  · refine .inr ⟨?_, ?_⟩ <;> simp only [answer, Machine.budget, Machine.heat, Mode.heat, hb, hh]
    omega
  · split
    · next script w' h =>
      left
      have := (takeHookScript_eq_some h).1
      simp only [budget_note, hb] at this
      simp only [enter, Machine.budget, stackBudget_append, stackBudget_cons, stackBudget_nil,
        Frame.budget]
      omega
    · refine .inr ⟨?_, ?_⟩ <;>
        simp only [Machine.budget, Machine.heat, Mode.heat, budget_note, heat_note, hb, hh]
      omega

theorem Signal.heat_step (p : Signal) (c : Cell) :
    match (p.step c).2 with
    | .goTo q => ∀ t, (Frame.signal t q).heat + (p.step c).1.heat < (Frame.signal t p).heat + c.heat
        ∧ (Frame.firing t q).heat + (p.step c).1.heat < (Frame.firing t p).heat + c.heat
    | .done _ => (p.step c).1.heat ≤ c.heat := by
  cases p <;> cases c with | mk s r =>
    cases s <;> cases r <;>
      simp [Signal.step, Cell.exchange?, Cell.rearm, Cell.heat, Frame.heat]

theorem Drain.heat_step (p : Drain) (c : Cell) :
    match (p.step c).2 with
    | .goTo q => ∀ t n m, (Frame.drain t q n).heat + (p.step c).1.heat
        < (Frame.drain t p m).heat + c.heat
    | .done _ => (p.step c).1.heat ≤ c.heat := by
  cases p <;> cases c with | mk s r =>
    cases s <;> cases r <;>
      simp [Drain.step, Cell.exchange?, Cell.clear, Cell.heat, Frame.heat]

namespace World

theorem enter_below {w : World} {frames k : List Frame} {b h : Nat}
    (hc : w.budget + stackBudget frames + stackBudget k < b ∨
      (w.budget + stackBudget frames + stackBudget k = b ∧
        w.heat + stackHeat frames + stackHeat k < h)) : (w.enter frames k).Below b h := by
  rcases hc with hc | ⟨hb, hh⟩
  · left
    simp only [enter, Machine.budget, stackBudget_append]
    omega
  · refine .inr ⟨?_, ?_⟩ <;>
      simp only [enter, Machine.budget, Machine.heat, Mode.heat, stackBudget_append,
        stackHeat_append]
    · omega
    · omega

theorem ended_below {w : World} {k : List Frame} {r : Result} {b h : Nat}
    (hb : w.budget + stackBudget k = b) (hh : w.heat + stackHeat k + 1 < h) :
    Machine.Below ⟨w, k, .ended r⟩ b h :=
  .inr ⟨hb, hh⟩

/-- A call ends that holds nothing more. -/
theorem leave_below {w w' : World} {k : List Frame} {f : Frame} {r : Result} (hf : f.budget = 0)
    (hb : w'.budget = w.budget) (hh : w'.heat = w.heat) :
    Machine.Below ⟨w', k, .ended r⟩ (w.budget + f.budget + stackBudget k)
      (w.heat + f.heat + stackHeat k) := by
  have := f.two_le_heat
  exact ended_below (by rw [hb, hf]; rfl) (by omega)

theorem delivering_below (w : World) (k : List Frame) (e : Event) (l : Listener)
    (rest : List Listener) (count : Nat) :
    ((w.notify e l).1.enter ((w.notify e l).2 ++ [.delivering e rest count]) k).Below
      (w.budget + stackBudget k) (w.heat + (2 + 20 * (rest.length + 1)) + stackHeat k) := by
  apply enter_below
  simp only [stackBudget_append, stackBudget_cons, stackBudget_nil, Frame.budget,
    stackHeat_append, stackHeat_cons, stackHeat_nil, Frame.heat]
  rcases w.notify_cost e l with h | h
  · left
    omega
  · right
    omega

theorem script_below (w : World) (k : List Frame) (rest : List Action) :
    (w.advance k (.script rest)).Below (w.budget + sizeOf rest + stackBudget k)
      (w.heat + 2 + stackHeat k) := by
  left
  cases rest with
  | nil =>
    simp only [advance, budget_answer, List.nil.sizeOf_spec]
    omega
  | cons a rest =>
    have hbegin := w.begin_cost a (.acting a :: .script rest :: k)
    simp only [stackBudget_cons, Frame.budget] at hbegin
    simp only [advance, List.cons.sizeOf_spec]
    omega

theorem signal_below (w : World) (k : List Frame) (t : Nat) (point : Signal) :
    (w.advance k (.signal t point)).Below (w.budget + stackBudget k)
      (w.heat + (Frame.signal t point).heat + stackHeat k) := by
  have hpos := (Frame.signal t point).two_le_heat
  have hs := point.heat_step (w.task t).cell
  have hc := w.heat_setCell t (point.step (w.task t).cell).1
  have hb := w.budget_setCell t (point.step (w.task t).cell).1
  simp only [advance]
  split
  · next q hq =>
    rw [hq] at hs
    have := (hs t).1
    apply enter_below
    simp only [stackBudget_cons, stackBudget_nil, Frame.budget, stackHeat_cons, stackHeat_nil]
    omega
  · next owed hq =>
    rw [hq] at hs
    simp only at hs
    exact ended_below (by rw [hb]) (by omega)

/-- The drain that a signal of a watcher is owed begins, or is submitted. -/
theorem owed_below (w : World) (k : List Frame) (executor : Executor) (t : Nat) :
    Machine.Below
      (match executor with
        | .inline => w.enter [.drain t .claim 0] k
        | executor => (w.submit executor t).answer .nothing k)
      (w.budget + stackBudget k) (w.heat + 11 + stackHeat k) := by
  obtain ⟨hb, hh⟩ := w.submit_cost executor t
  cases executor with
  | inline =>
    apply enter_below
    have : (Frame.drain t .claim 0).heat = 8 := rfl
    simp only [stackBudget_cons, stackBudget_nil, Frame.budget, stackHeat_cons, stackHeat_nil]
    omega
  | deferred | background => exact ended_below (by rw [hb]) (by omega)

theorem firing_below (w : World) (k : List Frame) (i : Nat) (point : Signal) :
    (w.advance k (.firing i point)).Below (w.budget + stackBudget k)
      (w.heat + (Frame.firing i point).heat + stackHeat k) := by
  have hwarm : 11 ≤ (Frame.firing i point).heat := by cases point <;> simp [Frame.heat]
  simp only [advance]
  split
  · exact ended_below rfl (by omega)
  · next v _ =>
    have hs := point.heat_step (w.task v.task).cell
    have hc := w.heat_setCell v.task (point.step (w.task v.task).cell).1
    have hb := w.budget_setCell v.task (point.step (w.task v.task).cell).1
    split
    · next q hq =>
      rw [hq] at hs
      have := (hs i).2
      apply enter_below
      simp only [stackBudget_cons, stackBudget_nil, Frame.budget, stackHeat_cons, stackHeat_nil]
      omega
    · next hq =>
      rw [hq] at hs
      simp only at hs
      exact ended_below (by rw [hb]) (by omega)
    · next hq =>
      rw [hq] at hs
      simp only at hs
      have howed := (w.setCell v.task (point.step (w.task v.task).cell).1).owed_below k v.executor
        v.task
      exact howed.mono (by rw [hb]) (by omega)

/-- A drain polls its queue. -/
theorem poll_below (w : World) (k : List Frame) (t : Nat) (taken : UInt64) :
    (w.advance k (.drain t .poll taken)).Below (w.budget + stackBudget k)
      (w.heat + 6 + stackHeat k) := by
  simp only [advance]
  split
  · next item w' h =>
    have := (pop?_eq_some h).1
    have := item.sizeOf_callbacks_lt
    apply enter_below
    left
    simp only [stackBudget_cons, stackBudget_nil, Frame.budget]
    omega
  · split
    · next script w' h =>
      have := (takeOnEmpty_eq_some h).1
      apply enter_below
      left
      simp only [stackBudget_cons, stackBudget_nil, Frame.budget]
      omega
    · apply enter_below
      refine .inr ⟨rfl, ?_⟩
      have : (Frame.drain t .release taken).heat = 5 := rfl
      simp only [stackHeat_cons, stackHeat_nil]
      omega

theorem advanceDrain_below (w : World) (k : List Frame) (t : Nat) (point : Drain)
    (taken : UInt64) :
    (w.advanceDrain k t point taken).Below (w.budget + stackBudget k)
      (w.heat + (Frame.drain t point taken).heat + stackHeat k) := by
  have hpos := (Frame.drain t point taken).two_le_heat
  have hs := point.heat_step (w.task t).cell
  have hc := w.heat_setCell t (point.step (w.task t).cell).1
  have hb := w.budget_setCell t (point.step (w.task t).cell).1
  simp only [advanceDrain]
  split
  · next q hq =>
    rw [hq] at hs
    have := hs t taken taken
    apply enter_below
    simp only [stackBudget_cons, stackBudget_nil, Frame.budget, stackHeat_cons, stackHeat_nil]
    omega
  · next hq =>
    rw [hq] at hs
    simp only at hs
    exact ended_below (by rw [hb]) (by omega)

theorem handing_below (w : World) (k : List Frame) (t : Nat) (item : Item) :
    (w.advance k (.handing t item)).Below (w.budget + sizeOf item.onAccept + stackBudget k)
      (w.heat + 5 + stackHeat k) := by
  simp only [advance]
  split
  · left
    have : 0 < sizeOf item.onAccept := by
      cases item.onAccept <;> simp only [List.nil.sizeOf_spec, List.cons.sizeOf_spec] <;> omega
    rw [budget_raise]
    omega
  · apply enter_below
    refine .inr ⟨rfl, ?_⟩
    simp only [heat_note, stackHeat_cons, stackHeat_nil, Frame.heat]
    omega

theorem accepting_below (w : World) (k : List Frame) (t : Nat) (item : Item) :
    (w.advance k (.accepting t item)).Below (w.budget + stackBudget k)
      (w.heat + 2 + stackHeat k) := by
  simp only [advance]
  split
  · exact (w.fail_below t _ k).mono rfl (by omega)
  · exact (w.fail_below t _ k).mono rfl (by omega)
  · exact ended_below rfl (by omega)

/-- A deferred job begins, if one may and there is one. -/
theorem working_below (w : World) (k : List Frame) (left done : Nat) :
    (w.advance k (.working left done)).Below (w.budget + stackBudget k)
      (w.heat + 2 + stackHeat k) := by
  cases left with
  | zero => exact ended_below rfl (by omega)
  | succ left =>
    simp only [advance]
    split
    · exact ended_below rfl (by omega)
    · next t rest hd =>
      have hh : ({ w with deferred := rest } : World).heat + 9 = w.heat := by
        simp only [heat, hd, List.length_cons]
        omega
      apply enter_below
      refine .inr ⟨rfl, ?_⟩
      simp only [stackHeat_cons, stackHeat_nil, Frame.heat]
      omega

/-- A background job begins, if there is one. -/
theorem settling_below (w : World) (k : List Frame) (result : Option Result) :
    (w.advance k (.settling result)).Below (w.budget + stackBudget k)
      (w.heat + 2 + stackHeat k) := by
  simp only [advance]
  split
  · exact ended_below rfl (by omega)
  · next t rest hd =>
    have hh : ({ w with spawned := rest } : World).heat + 9 = w.heat := by
      simp only [heat, hd, List.length_cons]
      omega
    apply enter_below
    refine .inr ⟨rfl, ?_⟩
    simp only [stackHeat_cons, stackHeat_nil, Frame.heat]
    omega

/-- A step of the innermost call uses up a callback or heat. -/
theorem advance_below (w : World) (k : List Frame) (f : Frame) :
    (w.advance k f).Below (w.budget + f.budget + stackBudget k)
      (w.heat + f.heat + stackHeat k) := by
  cases f with
  | script rest => exact w.script_below k rest
  | signal t point => exact w.signal_below k t point
  | firing i point => exact w.firing_below k i point
  | drain t point taken =>
    cases point with
    | poll => exact w.poll_below k t taken
    | claim | clear | release | swap | reclaim | abandon => exact w.advanceDrain_below k t _ taken
  | handing t item => exact w.handing_below k t item
  | accepting t item => exact w.accepting_below k t item
  | delivering e rest count =>
    cases rest with
    | nil => exact leave_below rfl rfl rfl
    | cons l rest => exact w.delivering_below k e l rest count
  | working left done => exact w.working_below k left done
  | settling result => exact w.settling_below k result
  | subscribing i id => exact leave_below rfl (w.budget_subscribed i _) rfl
  | acting | starting | ending => exact leave_below rfl rfl rfl

/-- So does a call that learns that the one inside it has ended. -/
theorem resume_below (w : World) (k : List Frame) (r : Result) (f : Frame) :
    (w.resume k r f).Below (w.budget + f.budget + stackBudget k)
      (w.heat + f.heat + stackHeat k + 1) := by
  have hf := f.two_le_heat
  have stay : (w.enter [f] k).Below (w.budget + f.budget + stackBudget k)
      (w.heat + f.heat + stackHeat k + 1) := by
    apply enter_below
    simp only [stackBudget_cons, stackBudget_nil, stackHeat_cons, stackHeat_nil]
    omega
  have leave (w' : World) (p : Payload) (hb : w'.budget = w.budget) (hh : w'.heat ≤ w.heat) :
      (w'.raise p k).Below (w.budget + f.budget + stackBudget k)
        (w.heat + f.heat + stackHeat k + 1) := by
    rcases Nat.eq_zero_or_pos f.budget with h0 | hpos
    · exact ended_below (by rw [hb, h0]; rfl) (by omega)
    · left
      simp only [raise, Machine.budget]
      omega
  unfold resume
  split
  · apply enter_below
    refine .inr ⟨?_, ?_⟩ <;>
      simp only [stackBudget_cons, stackBudget_nil, Frame.budget, stackHeat_cons, stackHeat_nil,
        Frame.heat]
    omega
  · exact stay
  · apply enter_below
    refine .inr ⟨?_, ?_⟩ <;>
      simp only [stackBudget_nil, Frame.budget, stackHeat_nil, Frame.heat, budget_note,
        heat_note]
    omega
  · exact stay
  · next t point taken p =>
    split
    · refine leave _ p (w.budget_setCell ..) ?_
      have hc := w.heat_setCell t (Drain.abandon.step (w.task t).cell).1
      have hs := Drain.abandon.heat_step (w.task t).cell
      simp only [Drain.step] at hs hc ⊢
      omega
    · exact leave w p rfl (Nat.le_refl _)
  · exact w.fail_below _ _ k |>.mono rfl (by omega)
  · exact leave w _ rfl (Nat.le_refl _)

end World

namespace Machine

/-- Every step of a machine that has calls under way brings it nearer to its end. -/
theorem step_decreases (m : Machine) (h : m.stack ≠ []) :
    Prod.Lex (· < ·) (· < ·) (m.step.budget, m.step.heat) (m.budget, m.heat) := by
  have below : m.step.Below m.budget m.heat := by
    obtain ⟨w, stack, mode⟩ := m
    cases stack with
    | nil => exact absurd rfl h
    | cons f k =>
      cases mode with
      | running =>
        refine (w.advance_below k f).mono ?_ ?_ <;>
          simp only [Machine.budget, Machine.heat, stackBudget_cons, stackHeat_cons, Mode.heat] <;>
          omega
      | ended r =>
        refine (w.resume_below k r f).mono ?_ ?_ <;>
          simp only [Machine.budget, Machine.heat, stackBudget_cons, stackHeat_cons, Mode.heat] <;>
          omega
  rcases below with hb | ⟨hb, hh⟩
  · exact .left _ _ hb
  · rw [hb]
    exact .right _ hh

/-- Steps until no call is under way. -/
def run (m : Machine) : Machine :=
  if m.stack = [] then m else m.step.run
termination_by (m.budget, m.heat)
decreasing_by exact m.step_decreases ‹_›

/-- How the outermost call ended. -/
def result (m : Machine) : Result :=
  match m.mode with
  | .ended r => r
  | .running => .answer .nothing

end Machine

/-- Runs an action, and the background jobs that it leaves. -/
def World.perform (w : World) (a : Action) : World × Result :=
  let m := (w.begin a [.settling none]).run
  (m.world, m.result)

end StoreClient.Tasks

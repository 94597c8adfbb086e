import StoreClient.Proofs.Tasks.Drains

/-! # Drains that a panic ends

The failure hook of a task panics while its queue is drained, and the panic unwinds the drain.  Its
consumer has then got the oldest items, the failing one among them, and the others are still
queued; the task is idle, whether its flag is raised or not.  The next signal is therefore owed a
drain, which lowers the flag before it polls and hands the rest over. -/

namespace StoreClient.Tasks

def World.signalled (w : World) (t : Nat) : World := w.setCell t ((w.task t).cell.store .ready)

namespace World

variable {t : Nat} {w : World}

theorem run_signalReady (h : (w.task t).cell.state = .waiting) (k : List Frame) :
    (w.begin (.signalReady t) k).run =
      Machine.run ⟨w.signalled t, k, .ended (.answer (.flag true))⟩ := by
  have hstep : Signal.attempt.step (w.task t).cell =
      ((w.task t).cell.store .ready, .done true) := by
    simp [Signal.step, Cell.exchange?, Cell.store, h]
  have hne : (w.begin (.signalReady t) k).stack ≠ [] := List.cons_ne_nil _ _
  rw [Machine.run, if_neg hne]
  congr 1
  simp only [begin, enter, Machine.step, List.cons_append, advance, hstep]
  rfl

theorem Reentrant.turns_signalled (h : w.Reentrant t) :
    w.Turns t True (w.signalled t) ((w.task t).cell.store .ready) {} :=
  h.turns_setCell _

end World

namespace Machine

/-- The drain of a task returns and leaves nothing in its queue. -/
structure Emptied (t : Nat) (w : World) : Prop where
  drained : Drained t True (w.drain t) (w.drain t).run (w.drain t).trail
  empty : ((w.drain t).run.world.task t).queue = []
  handed : (doings (w.drain t).trail).handed =
    (w.task t).queue ++ (doings (w.drain t).trail).pushed

/-- What a call that drains a task comes to if a panic leaves the hook and the queue is plain. -/
structure Unwound (t : Nat) (m : Machine) : Prop where
  /-- Wherever the call was made, the panic goes out of it. -/
  panics : ∃ p, ∀ k, (m.above k).run = Machine.run ⟨m.run.world, k, .ended (.panic p)⟩
  waiting : (m.run.world.task t).cell.state = .waiting
  failures : (m.run.world.task t).failures = (m.world.task t).failures +
    UInt64.ofNat ((doings m.trail).handed.filterMap (·.ending.error?)).length
  accepted : m.run.world.accepted t = m.world.accepted t ++ (doings m.trail).handed.map Item.id
  /-- What the consumer was handed and what is still queued is all there was, in order. -/
  queue : (doings m.trail).handed ++ (m.run.world.task t).queue =
    (m.world.task t).queue ++ (doings m.trail).pushed
  /-- The next signal is owed a drain. -/
  signal : ∀ k, (m.run.world.begin (.signalReady t) k).run =
    Machine.run ⟨m.run.world.signalled t, k, .ended (.answer (.flag true))⟩
  remains : ((m.run.world.signalled t).task t).queue = (m.run.world.task t).queue
  /-- Unless the hook panics again, that drain hands over what is left. -/
  next : (∀ m' ∈ ((m.run.world.signalled t).drain t).trail, m'.hookPanics = false) →
    Emptied t (m.run.world.signalled t)

variable {t : Nat} {w : World}

/-- A drain of a plain queue hands over everything, if no panic leaves the hook. -/
theorem emptied_of_calm (hw : w.Reentrant t) (hready : (w.task t).cell.state = .ready)
    (honEmpty : (w.task t).onEmpty = []) (hcalm : ∀ m ∈ (w.drain t).trail, m.hookPanics = false) :
    Emptied t w := by
  have hplain : True → (w.task t).onEmpty = [] := fun _ => honEmpty
  obtain ⟨hdrained, hrest⟩ := drained_of_calm hw hready hplain (.trail (w.drain t))
    (run_stack (w.drain t)) hcalm
  obtain ⟨hempty, hhanded⟩ := hrest trivial
  exact ⟨hdrained, hempty, hhanded⟩

/-- Any drain of a ready task over a plain queue, while the consumer and the hook come back as they
like, from which a panic leaves the hook. -/
theorem unwound_of_hookPanics (hw : w.Reentrant t) (hready : (w.task t).cell.state = .ready)
    (honEmpty : (w.task t).onEmpty = [])
    (hpanics : ∃ m ∈ (w.drain t).trail, m.hookPanics = true) : (w.drain t).Unwound t := by
  have hplain : True → (w.task t).onEmpty = [] := fun _ => honEmpty
  have hend := run_stack (w.drain t)
  obtain ⟨s', hlast, hleads⟩ := (draining_drain hw hready hplain).path (.trail (w.drain t))
  have hmode : (w.drain t).run.mode.panics = true := by
    rw [hleads.panics, List.any_eq_true.mpr hpanics, Bool.or_true]
  obtain ⟨hstands, ⟨p, hp⟩ | ⟨hmode', -⟩⟩ := hlast.ended hend
  · have hhanded := hleads.handed_eq hend
    have herrors := hleads.errors_eq hend
    have hsignal := hstands.reentrant.turns_signalled
    constructor
    · refine ⟨p, ?_⟩
      intro k
      rw [run_above, ← hp, above, hend, List.nil_append]
    · exact hstands.state
    · rw [← herrors]
      exact hleads.turns.failures
    · exact hleads.turns.accepted
    · rw [hhanded]
      exact hleads.turns.queue trivial
    · exact World.run_signalReady hstands.state
    · exact hsignal.queue_eq trivial
    · have hnext := hstands.moves hsignal
      exact emptied_of_calm hnext.reentrant hnext.state (hnext.onEmpty trivial)
  · rw [hmode'] at hmode
    cases hmode

/-- A ready task whose hook panics at the second item, after the consumer has pushed and
signalled. -/
def tripped : World where
  tasks := [{
    cell := { state := .ready }
    queue := [
      .mk "a" [] [] .success,
      .mk "b" [] [.push 0 (.mk "d" [] [] .success), .signalReady 0] (.failure "refused"),
      .mk "c" [] [] (.panic .other)]
    hook := some { panicsOn := some "refused" } }]

theorem reentrant_tripped : tripped.Reentrant 0 where
  exists_task := Nat.zero_lt_one
  task :=
    { queue := by
        refine List.forall_mem_cons.mpr ⟨.mk nofun nofun nofun, List.forall_mem_cons.mpr ⟨?_, ?_⟩⟩
        · refine .mk nofun (List.forall_mem_cons.mpr ⟨?_, ?_⟩) nofun
          · exact .push (.mk nofun nofun nofun)
          · exact List.forall_mem_singleton.mpr .signalReady
        · exact List.forall_mem_singleton.mpr (.mk nofun nofun nofun)
      onEmpty := nofun
      hook := by
        rintro _ ⟨⟩
        exact nofun }

theorem unwound_of_hookPanics_of_tripped : tripped.Reentrant 0 ∧
    (tripped.task 0).cell.state = .ready ∧ (tripped.task 0).onEmpty = [] ∧
    (∃ m ∈ (tripped.drain 0).trail, m.hookPanics = true) ∧ (tripped.drain 0).Unwound 0 := by
  have hpanics : ∃ m ∈ (tripped.drain 0).trail, m.hookPanics = true := by
    rw [trail_eq_walk (n := 25) (by decide +kernel)]
    exact List.any_eq_true.mp (by decide +kernel)
  exact ⟨reentrant_tripped, rfl, rfl, hpanics,
    unwound_of_hookPanics reentrant_tripped rfl rfl hpanics⟩

/-- The flag that the unwound drain left raised does not disturb the next one. -/
example :
    let w := (steps 25 (tripped.drain 0)).world
    let w' := (steps 21 ((w.signalled 0).drain 0)).world
    (w.task 0).cell.rearmed = true ∧ w.accepted 0 = ["a", "b"] ∧
      w'.accepted 0 = ["a", "b", "c", "d"] := by
  decide +kernel

end Machine

end StoreClient.Tasks

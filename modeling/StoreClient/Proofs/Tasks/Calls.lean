import StoreClient.Proofs.Tasks.Delivery

/-! # Calls on top of others

No call looks at the ones below it, so a call does the same wherever it is made: its run goes
through the same steps on any stack (`Machine.step_above`, `Machine.trail_above`), and comes to the
point where the calls below go on with what it left and answered (`Machine.run_above`).  What is
proved of a call on an empty stack holds of it inside a callback, a delivery or a job. -/

namespace StoreClient.Tasks

/-- The same calls on top of others. -/
def Machine.above (m : Machine) (k : List Frame) : Machine := ⟨m.world, m.stack ++ k, m.mode⟩

namespace World

variable (w : World) (frames k k' : List Frame)

theorem enter_above : w.enter frames (k ++ k') = (w.enter frames k).above k' := by
  simp [enter, Machine.above]

theorem begin_above (a : Action) : w.begin a (k ++ k') = (w.begin a k).above k' := by
  cases a with
  | start t c executor pattern =>
    cases pattern with
    | error f => rfl
    | ok pattern => exact enter_above ..
  | publish c key =>
    cases key with
    | error f => rfl
    | ok key =>
      simp only [begin]
      split
      · exact enter_above ..
      · rfl
  | subscribe c pattern onKey onSubscribed =>
    cases pattern with
    | error f => rfl
    | ok pattern => exact enter_above ..
  | poll t =>
    simp only [begin]
    split
    · exact enter_above ..
    · split
      · exact enter_above ..
      · rfl
  | job place =>
    simp only [begin]
    split
    · exact enter_above ..
    · rfl
  | stop | drop | watcher | unsubscribe =>
    simp only [begin]
    split <;> rfl
  | signalReady | run | resubscribe | jobs => exact enter_above ..
  | push | queue | signalWaiting | state | task | subscriptions | pendingJobs => rfl

theorem fail_above (t : Nat) (error : String) :
    w.fail t error (k ++ k') = (w.fail t error k).above k' := by
  simp only [fail]
  split
  · rfl
  · split
    · exact enter_above ..
    · rfl

theorem advance_above (f : Frame) : w.advance (k ++ k') f = (w.advance k f).above k' := by
  cases f with
  | script rest =>
    cases rest with
    | nil => rfl
    | cons a rest => exact begin_above w (.acting a :: .script rest :: k) k' a
  | signal t point =>
    simp only [advance]
    split
    · exact enter_above ..
    · rfl
  | firing i point =>
    simp only [advance]
    split
    · rfl
    · split
      · exact enter_above ..
      · rfl
      · split
        · exact enter_above ..
        · rfl
  | drain t point taken =>
    by_cases hp : point = .poll
    · subst hp
      simp only [advance]
      split
      · exact enter_above ..
      · split <;> exact enter_above ..
    · rw [advance_drain hp, advance_drain hp]
      simp only [advanceDrain]
      split
      · exact enter_above ..
      · rfl
  | handing t item =>
    simp only [advance]
    split
    · rfl
    · exact enter_above ..
  | accepting t item =>
    simp only [advance]
    split
    · exact fail_above ..
    · exact fail_above ..
    · rfl
  | delivering e rest count =>
    cases rest with
    | nil => rfl
    | cons l rest => exact enter_above ..
  | working left done =>
    cases left with
    | zero => rfl
    | succ left =>
      simp only [advance]
      split
      · rfl
      · exact enter_above ..
  | settling result =>
    simp only [advance]
    split
    · rfl
    · exact enter_above ..
  | acting | starting | subscribing | ending => rfl

theorem resume_above (r : Result) (f : Frame) :
    w.resume (k ++ k') r f = (w.resume k r f).above k' := by
  unfold resume
  split
  · exact enter_above ..
  · exact enter_above ..
  · exact enter_above ..
  · exact enter_above ..
  · rfl
  · exact fail_above ..
  · rfl

end World

namespace Machine

variable (m : Machine) (k : List Frame)

/-- Calls below those under way do not matter. -/
theorem step_above (h : m.stack ≠ []) : (m.above k).step = m.step.above k := by
  obtain ⟨w, stack, mode⟩ := m
  cases stack with
  | nil => exact absurd rfl h
  | cons f fs =>
    cases mode with
    | running => exact w.advance_above fs k f
    | ended r => exact w.resume_above fs k r f

/-- A run on top of calls comes to where the calls go on. -/
theorem run_above : (m.above k).run = (m.run.above k).run := by
  induction m using trail.induct with
  | case1 m h => rw [run.eq_def m, if_pos h]
  | case2 m h ih =>
    have hne : (m.above k).stack ≠ [] := by
      simp only [above, ne_eq, List.append_eq_nil_iff, not_and]
      exact fun e => absurd e h
    rw [run.eq_def m, if_neg h, run.eq_def (m.above k), if_neg hne, step_above m k h, ih]

theorem run_stack : m.run.stack = [] := by
  induction m using trail.induct with
  | case1 m hstack =>
    rw [Machine.run, if_pos hstack]
    exact hstack
  | case2 m hstack ih =>
    rw [Machine.run, if_neg hstack]
    exact ih

theorem trail_ne_nil : m.trail ≠ [] := by
  rw [trail]
  split <;> exact List.cons_ne_nil _ _

theorem stack_ne_nil_of_mem_dropLast {m' : Machine} (h : m' ∈ m.trail.dropLast) :
    m'.stack ≠ [] := by
  induction m using trail.induct with
  | case1 m hstack =>
    rw [trail, if_pos hstack] at h
    cases h
  | case2 m hstack ih =>
    rw [trail, if_neg hstack, List.dropLast_cons_of_ne_nil m.step.trail_ne_nil] at h
    rcases List.mem_cons.mp h with rfl | h
    · exact hstack
    · exact ih h

theorem trail_above :
    (m.above k).trail = m.trail.dropLast.map (·.above k) ++ (m.run.above k).trail := by
  induction m using trail.induct with
  | case1 m hstack =>
    rw [trail.eq_def m, run.eq_def m, if_pos hstack, if_pos hstack]
    rfl
  | case2 m hstack ih =>
    have hne : (m.above k).stack ≠ [] := by
      simp only [above, ne_eq, List.append_eq_nil_iff, not_and]
      exact fun e => absurd e hstack
    rw [trail.eq_def (m.above k), if_neg hne, trail.eq_def m, if_neg hstack, run.eq_def m,
      if_neg hstack, step_above m k hstack, ih,
      List.dropLast_cons_of_ne_nil m.step.trail_ne_nil]
    rfl

end Machine
end StoreClient.Tasks

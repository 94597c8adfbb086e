import StoreClient.Proofs.Tasks.Changes
import StoreClient.Proofs.Tasks.Delivery

/-! # Watchers that are stopped

A session goes on step by step, and the outermost caller begins an action whenever no call is under
way (`Machine.Next`).  A watcher that is not active was stopped and never is active again
(`Machine.Kept`), so it never submits a drain and has nothing left to stop
(`Machine.stopped_for_good`). -/

namespace StoreClient.Tasks
namespace Machine

variable {m m' : Machine}

/-! ### Sessions of actions -/

/-- A step, or the outermost caller begins an action when no call is under way. -/
inductive Next (m : Machine) : Machine → Prop
  | step : Next m m.step
  | act (a : Action) (idle : m.stack = []) : Next m (m.world.begin a [.settling none])

/-- The machine comes to another one, step by step, and no counter of subscriptions begins anew. -/
inductive Later (m : Machine) : Machine → Prop
  | refl : Later m m
  | next {m₁ m₂ : Machine} (later : Later m m₁) (next : m₁.Next m₂)
    (counts : m₁.world.CountsUp m₂.world) : Later m m₂

/-- An action begins, in a callback or by the outermost caller. -/
inductive Begins (a : Action) : Machine → Machine → Prop
  | inside (w : World) (rest : List Action) (k : List Frame) : Begins a
    ⟨w, .script (a :: rest) :: k, .running⟩ (w.begin a (.acting a :: .script rest :: k))
  | outside {m : Machine} (idle : m.stack = []) : Begins a m (m.world.begin a [.settling none])

/-- The owner of a watcher begins to stop it, or to drop it. -/
def Stops (i : Nat) (m m' : Machine) : Prop :=
  (m.world.held? i).isSome = true ∧ (Begins (.stop i) m m' ∨ Begins (.drop i) m m')

theorem Later.trans {m₁ : Machine} (h : m.Later m₁) (h' : m₁.Later m') : m.Later m' := by
  induction h' with
  | refl => exact h
  | next _ hnext hcounts ih => exact .next ih hnext hcounts

theorem Begins.exists_eq {a : Action} (h : Begins a m m') : ∃ k, m' = m.world.begin a k := by
  cases h with
  | inside w rest k => exact ⟨_, rfl⟩
  | outside idle => exact ⟨_, rfl⟩

theorem Begins.next {a : Action} (h : Begins a m m') : m.Next m' := by
  cases h with
  | inside w rest k => exact .step
  | outside idle => exact .act a idle

theorem Stops.countsUp {i : Nat} (h : Stops i m m') : m.world.CountsUp m'.world := by
  have hstop := m.world.countsUp_stop i
  rcases h.2 with hbegins | hbegins
  · obtain ⟨k, rfl⟩ := hbegins.exists_eq
    simp only [World.begin]
    split
    · exact hstop
    · exact fun _ => UInt64.le_refl _
  · obtain ⟨k, rfl⟩ := hbegins.exists_eq
    simp only [World.begin]
    split
    · exact hstop
    · exact fun _ => UInt64.le_refl _

theorem Stops.later {i : Nat} (h : Stops i m m') : m.Later m' := by
  rcases h.2 with hbegins | hbegins
  · exact .next .refl hbegins.next h.countsUp
  · exact .next .refl hbegins.next h.countsUp

/-- A step that stops a watcher begins such an action. -/
theorem begins_of_stops? {i : Nat} (h : m.stops? = some i) :
    Begins (.stop i) m m.step ∨ Begins (.drop i) m m.step := by
  obtain ⟨w, stack, mode⟩ := m
  cases stack with
  | nil =>
    unfold stops? at h
    split at h
    · next heq => cases heq
    · cases h
  | cons f k =>
    cases mode with
    | ended r => cases h
    | running =>
      cases f with
      | script rest =>
        cases rest with
        | nil => cases h
        | cons a rest =>
          cases a with
          | stop j =>
            cases h
            exact .inl (.inside w rest k)
          | drop j =>
            cases h
            exact .inr (.inside w rest k)
          | _ => cases h
      | _ => cases h

/-- Jobs come from watchers alone. -/
theorem Next.submission (h : m.Next m') (haimed : m.Aimed) :
    m.world.Submission m.submits? m'.world := by
  cases h with
  | step => exact (leads_step haimed).2.1
  | act a idle =>
    have hnone : m.submits? = none := by
      unfold submits?
      split
      · next hstack =>
        rw [idle] at hstack
        cases hstack
      · rfl
    rw [hnone]
    exact (m.world.leads_begin a [.settling none]).submission

theorem Next.change (h : m.Next m') (haimed : m.Aimed) :
    ∃ stopped, m.world.Change (promised m.stack) stopped m'.world (promised m'.stack) ∧
      m'.Aimed ∧ ∀ i, stopped = some i → Begins (.stop i) m m' ∨ Begins (.drop i) m m' := by
  cases h with
  | step =>
    obtain ⟨hchange, -, hnext⟩ := leads_step haimed
    exact ⟨_, hchange, hnext, fun i => begins_of_stops?⟩
  | act a idle =>
    have hleads := m.world.leads_begin a [.settling none]
    have hquiet : Quiet [.settling none] := quiet_of_plain rfl
    refine ⟨a.stops?, ?_, hleads.aimed hquiet, ?_⟩
    · rw [idle]
      exact hleads.change
    · intro i hi
      cases a with
      | stop j =>
        cases hi
        exact .inl (.outside idle)
      | drop j =>
        cases hi
        exact .inr (.outside idle)
      | _ => cases hi

/-- What holds of every machine of a session. -/
structure Kept (start m : Machine) : Prop where
  later : start.Later m
  enrolled : Enrolled m.world (promised m.stack)
  aimed : m.Aimed
  /-- A watcher that is not active was stopped, if it could be started at all. -/
  inactive : ∀ (i : Nat) (v : Watcher), m.world.watchers[i]? = some v → v.active = false →
    v.handle = .dropped ∨ ∃ m₁ m₂, start.Later m₁ ∧ Stops i m₁ m₂ ∧ m₂.Later m

namespace Kept

variable {start : Machine}

theorem next (h : Kept start m) (hnext : m.Next m') (hcounts : m.world.CountsUp m'.world) :
    Kept start m' := by
  obtain ⟨stopped, hchange, haimed, hstops⟩ := hnext.change h.aimed
  refine ⟨.next h.later hnext hcounts, hchange.enrolled h.enrolled hcounts, haimed, ?_⟩
  intro i v' hv' hinactive
  cases hv : m.world.watchers[i]? with
  | none =>
    rcases hchange.newcomer hv hv' with hactive | hdropped
    · rw [hactive] at hinactive
      cases hinactive
    · exact .inl hdropped
  | some v =>
    obtain ⟨u, hu, hfollows⟩ := hchange.watcher h.enrolled hv
    cases hv'.symm.trans hu
    rcases hfollows.active with hsame | ⟨-, hstopped, hheld⟩
    · rw [hsame] at hinactive
      rcases h.inactive i v hv hinactive with hdropped | ⟨m₁, m₂, hm₁, hstop, hm₂⟩
      · exact .inl (hfollows.dropped hdropped)
      · exact .inr ⟨m₁, m₂, hm₁, hstop, .next hm₂ hnext hcounts⟩
    · exact .inr ⟨m, m', h.later, ⟨hheld, hstops i hstopped⟩, .refl⟩

theorem of_later (h : Kept start m) (hlater : m.Later m') : Kept start m' := by
  induction hlater with
  | refl => exact h
  | next _ hnext hcounts ih => exact ih.next hnext hcounts

theorem inactive_later (h : Kept start m) {i : Nat} {v : Watcher}
    (hv : m.world.watchers[i]? = some v) (hinactive : v.active = false) (hlater : m.Later m') :
    ∃ v', m'.world.watchers[i]? = some v' ∧ v'.active = false := by
  induction hlater with
  | refl => exact ⟨v, hv, hinactive⟩
  | next hbefore hnext _ ih =>
    obtain ⟨u, hu, huinactive⟩ := ih
    have hkept := h.of_later hbefore
    obtain ⟨stopped, hchange, -, -⟩ := hnext.change hkept.aimed
    obtain ⟨u', hu', hfollows⟩ := hchange.watcher hkept.enrolled hu
    refine ⟨u', hu', ?_⟩
    rcases hfollows.active with hsame | ⟨hrest, -⟩
    · rw [hsame, huinactive]
    · exact hrest

end Kept
end Machine

/-- A world that nobody watches yet. -/
structure World.Unwatched (w : World) : Prop where
  watchers : w.watchers = []
  recorders : w.recorders = []
  subscriptions : ∀ c, (w.channel c).subscriptions = []

theorem World.Unwatched.kept {w : World} (h : w.Unwatched) (mode : Mode) :
    Machine.Kept ⟨w, [], mode⟩ ⟨w, [], mode⟩ := by
  have hnone : ∀ i : Nat, w.watchers[i]? = none := by
    intro i
    rw [h.watchers]
    rfl
  have hnumber : ∀ l id, ¬w.Owns [] l id := by
    rintro l id (hn | hmem)
    · cases l with
      | watcher i =>
        obtain ⟨v, hv, -⟩ := World.number?_watcher_eq_some.mp hn
        rw [hnone] at hv
        cases hv
      | recorder r =>
        obtain ⟨x, hx, -⟩ := World.number?_recorder_eq_some.mp hn
        rw [h.recorders] at hx
        cases hx
    · cases hmem
  have hempty : ∀ c, ∀ s ∈ (w.channel c).subscriptions, False := by
    intro c s hs
    rw [h.subscriptions] at hs
    cases hs
  refine ⟨.refl, ⟨⟨?_, ?_, ?_, ?_, ?_⟩, ?_, ?_, nofun, .nil⟩, .quiet nofun, ?_⟩
  · exact fun c s hs => (hempty c s hs).elim
  · exact fun c s hs => (hempty c s hs).elim
  · exact fun l id ho => (hnumber l id ho).elim
  · exact fun l c id ho => (hnumber l id ho).elim
  · exact fun l c id ho => (hnumber l id ho).elim
  · intro i v hv
    rw [hnone] at hv
    cases hv
  · intro i v hv
    rw [hnone] at hv
    cases hv
  · intro i v hv
    rw [hnone] at hv
    cases hv

namespace Machine

/-! ### After a stop -/

variable {start m m' : Machine} {i : Nat}

/-- The watcher at a place is at rest, whatever comes. -/
structure AtRest (i : Nat) (m : Machine) : Prop where
  submits_nothing : ∀ m₁, m.Later m₁ → m₁.submits? ≠ some i
  unregistered : ∀ m₁, m.Later m₁ → ¬m₁.world.Registered (.watcher i)
  stop_again : ∀ m₁ m₂, m.Later m₁ → Begins (.stop i) m₁ m₂ → m₂.world = m₁.world
  drop_again : ∀ m₁ m₂, m.Later m₁ → Begins (.drop i) m₁ m₂ → m₂.world = m₁.world ∨
    m₂.world = m₁.world.modifyWatcher i ({ · with handle := .dropped })

theorem Kept.stop_eq_self {v : Watcher} (h : Kept start m) (hv : m.world.watchers[i]? = some v)
    (hinactive : v.active = false) : m.world.stop i = m.world := by
  cases hheld : m.world.held? i with
  | none => rw [World.stop, hheld]
  | some held =>
    obtain ⟨hu, hhandle⟩ := World.held?_eq_some.mp (show _ = some (held.1, held.2) from hheld)
    cases hv.symm.trans hu
    have hactive := h.enrolled.active i held.1 hu
    rw [hinactive, hhandle] at hactive
    obtain ⟨v, subscription⟩ := held
    cases subscription with
    | none => exact h.enrolled.stop_eq_self hheld
    | some id => cases hactive

theorem Kept.not_registered {v : Watcher} (h : Kept start m)
    (hv : m.world.watchers[i]? = some v) (hinactive : v.active = false) :
    ¬m.world.Registered (.watcher i) := by
  intro hregistered
  obtain ⟨c, s, hs, hlistener⟩ := hregistered
  have hhome := h.enrolled.numbered.home c s hs
  rw [hlistener] at hhome
  obtain ⟨u, hu, rfl⟩ := World.home?_watcher_eq_some.mp hhome
  cases hv.symm.trans hu
  have hlt := World.lt_of_mem_channel _ hs
  have hactive := (h.enrolled.registered i v hv hlt).mpr ⟨_, s, hs, hlistener⟩
  rw [hinactive] at hactive
  cases hactive

theorem Kept.atRest {v : Watcher} (h : Kept start m) (hv : m.world.watchers[i]? = some v)
    (hinactive : v.active = false) : m.AtRest i := by
  constructor
  · intro m₁ hlater hsubmits
    obtain ⟨u, hu, hrest⟩ := h.inactive_later hv hinactive hlater
    have hsubmission := (Next.step (m := m₁)).submission (h.of_later hlater).aimed
    rw [hsubmits] at hsubmission
    cases hsubmission with
    | drain hu' hactive =>
      cases hu.symm.trans hu'
      rw [hrest] at hactive
      cases hactive
  · intro m₁ hlater
    obtain ⟨u, hu, hrest⟩ := h.inactive_later hv hinactive hlater
    exact (h.of_later hlater).not_registered hu hrest
  · intro m₁ m₂ hlater hbegins
    obtain ⟨u, hu, hrest⟩ := h.inactive_later hv hinactive hlater
    have hstop := (h.of_later hlater).stop_eq_self hu hrest
    obtain ⟨k, rfl⟩ := hbegins.exists_eq
    simp only [World.begin]
    split
    · exact hstop
    · rfl
  · intro m₁ m₂ hlater hbegins
    obtain ⟨u, hu, hrest⟩ := h.inactive_later hv hinactive hlater
    have hstop := (h.of_later hlater).stop_eq_self hu hrest
    obtain ⟨k, rfl⟩ := hbegins.exists_eq
    simp only [World.begin]
    split
    · rw [hstop]
      exact .inr rfl
    · exact .inl rfl

theorem Stops.leaves (h : Stops i m m') :
    (∃ v', m'.world.watchers[i]? = some v' ∧ v'.active = false) ∧
      ∀ t, m'.world.task t = (m.world.stop i).task t := by
  obtain ⟨hheld, hbegins⟩ := h
  obtain ⟨held, hheld⟩ := Option.isSome_iff_exists.mp hheld
  obtain ⟨v', hv', hinactive, -⟩ := World.exists_of_stop hheld
  rcases hbegins with hbegins | hbegins
  · obtain ⟨k, rfl⟩ := hbegins.exists_eq
    simp only [World.begin, hheld]
    exact ⟨⟨v', hv', hinactive⟩, fun _ => rfl⟩
  · obtain ⟨k, rfl⟩ := hbegins.exists_eq
    simp only [World.begin, hheld]
    exact ⟨⟨_, World.getElem?_modify_eq_some_iff.mpr (.inl ⟨rfl, v', hv', rfl⟩), hinactive⟩,
      fun _ => rfl⟩

end Machine

theorem World.state_signalWaiting (w : World) (t : Nat) :
    ((w.signalWaiting t).task t).cell.state = .waiting := by
  simp only [signalWaiting, setCell, modifyTask, task, List.getElem?_modify]
  cases w.tasks[t]? with
  | none => rfl
  | some task => simp only [if_true]; rfl

/-- The watcher is registered on its channel as long as it is active, under the number that its
owner has. -/
structure World.Lists (w : World) (i : Nat) (v : Watcher) : Prop where
  active_iff : v.active = true ↔
    ∃ s ∈ (w.channel v.channel).subscriptions, s.listener = .watcher i
  numbered : ∀ id, v.handle = .held (some id) →
    ∃ s ∈ (w.channel v.channel).subscriptions, s.id = id ∧ s.listener = .watcher i

namespace Machine

variable {start m m' : Machine} {i : Nat}

theorem Kept.lists (h : Kept start m) {v : Watcher} (hv : m.world.watchers[i]? = some v)
    (hchannel : v.channel < m.world.channels.length) : m.world.Lists i v := by
  have hself : m.world.home? (.watcher i) = some v.channel :=
    World.home?_watcher_eq_some.mpr ⟨v, hv, rfl⟩
  have hactive : v.active = true ↔
      ∃ s ∈ (m.world.channel v.channel).subscriptions, s.listener = .watcher i := by
    rw [h.enrolled.registered i v hv hchannel]
    constructor
    · rintro ⟨c, s, hs, hlistener⟩
      have hhome := h.enrolled.numbered.home c s hs
      rw [hlistener, hself] at hhome
      cases hhome
      exact ⟨s, hs, hlistener⟩
    · rintro ⟨s, hs, hlistener⟩
      exact ⟨v.channel, s, hs, hlistener⟩
  refine ⟨hactive, ?_⟩
  intro id hhandle
  have hwork : v.active = true := by
    rw [h.enrolled.active i v hv, hhandle]
    rfl
  obtain ⟨s, hs, hlistener⟩ := hactive.mp hwork
  have hnumber : m.world.Owns (promised m.stack) (.watcher i) id :=
    .inl (World.number?_watcher_eq_some.mpr ⟨v, hv, by rw [hhandle]; rfl⟩)
  have hid := (h.enrolled.numbered.owner _ _ id hnumber hself s hs).mpr hlistener
  exact ⟨s, hs, hid, hlistener⟩

/-- The first stop of a watcher leaves its task idle. -/
theorem Kept.idle_of_stops (h : Kept start m) (hstops : Stops i m m')
    (hfirst : ∀ m₁ m₂, start.Later m₁ → Stops i m₁ m₂ → ¬m₂.Later m) {v : Watcher}
    (hv : m.world.watchers[i]? = some v) : (m'.world.task v.task).cell.state = .waiting := by
  obtain ⟨held, hheld⟩ := Option.isSome_iff_exists.mp hstops.1
  obtain ⟨u, subscription⟩ := held
  obtain ⟨hu, hhandle⟩ := World.held?_eq_some.mp hheld
  cases hv.symm.trans hu
  rw [hstops.leaves.2]
  cases subscription with
  | some id =>
    rw [World.stop, hheld]
    exact World.state_signalWaiting _ _
  | none =>
    have hrest : v.active = false := by
      rw [h.enrolled.active i v hv, hhandle]
      rfl
    rcases h.inactive i v hv hrest with hdropped | ⟨m₁, m₂, hm₁, hbefore, hm₂⟩
    · rw [hhandle] at hdropped
      cases hdropped
    · exact absurd hm₂ (hfirst m₁ m₂ hm₁ hbefore)

/-- In a session that begins with nobody watching, and in which no counter of subscriptions begins
anew: a watcher is registered as long as it is active, and no job comes but from an active watcher
that submits it; after a watcher was stopped or dropped, wherever that began, it submits nothing
more, and stopping it again changes nothing; and the first stop leaves its task idle. -/
theorem stopped_for_good {w : World} {mode : Mode} (hw : w.Unwatched)
    (hm : Later ⟨w, [], mode⟩ m) :
    (∀ i v, m.world.watchers[i]? = some v → v.channel < m.world.channels.length →
      m.world.Lists i v) ∧
    (∀ m', m.Next m' → m.world.Submission m.submits? m'.world) ∧
    ∀ i m', Stops i m m' → m'.AtRest i ∧
      ((∀ m₁ m₂, Later ⟨w, [], mode⟩ m₁ → Stops i m₁ m₂ → ¬m₂.Later m) →
        ∀ v, m.world.watchers[i]? = some v →
          (m'.world.task v.task).cell.state = .waiting) := by
  have hkept := (hw.kept mode).of_later hm
  refine ⟨fun i v hv hchannel => hkept.lists hv hchannel,
    fun m' hnext => hnext.submission hkept.aimed, ?_⟩
  intro i m' hstops
  constructor
  · obtain ⟨v, hv, hinactive⟩ := hstops.leaves.1
    exact (hkept.of_later hstops.later).atRest hv hinactive
  · intro hfirst v hv
    exact hkept.idle_of_stops hstops hfirst hv

/-- So many steps of an action of the outermost caller. -/
def after (m : Machine) (a : Action) (n : Nat) : Machine :=
  (m.world.begin a [.settling none]).steps n

theorem later_steps {n : Nat} (h : ∀ m' ∈ walk n m, m'.world.CountsUp m'.step.world) :
    m.Later (m.steps n) := by
  induction n generalizing m with
  | zero => exact .refl
  | succ n ih =>
    rw [walk] at h
    split at h
    · next hidle =>
      rw [steps_of_stack_eq_nil hidle]
      exact .refl
    · obtain ⟨hfirst, hrest⟩ := List.forall_mem_cons.mp h
      exact Later.trans (.next .refl .step hfirst) (ih hrest)

theorem later_after (idle : m.stack = []) {a : Action} {n : Nat}
    (hbegin : m.world.CountsUp (m.world.begin a [.settling none]).world)
    (h : ∀ m' ∈ walk n (m.world.begin a [.settling none]), m'.world.CountsUp m'.step.world) :
    m.Later (m.after a n) :=
  Later.trans (.next .refl (.act a idle) hbegin) (later_steps h)

/-- Two tasks and a channel. -/
def vacant : World := { tasks := [{}, {}], channels := [{}] }

/-- A watcher of the first task has started, which drains it in the signalling call. -/
def eager : Machine :=
  after ⟨vacant, [], .running⟩ (.start 0 0 .inline (.ok (.array [107, 42]))) 12

/-- So has one of the second task, whose first drain is deferred. -/
def staffed : Machine := eager.after (.start 1 0 .deferred (.ok (.array [107]))) 12

/-- The consumer of the first task is about to stop the second watcher, in the middle of a delivery
that has still to tell it. -/
def dismissing : Machine :=
  (staffed.after (.push 0 (.mk "a" [] [.stop 1] .success)) 3).after
    (.publish 0 (.ok (.array [107]))) 8

theorem later_dismissing : Later ⟨vacant, [], .running⟩ dismissing := by
  have heager : Later ⟨vacant, [], .running⟩ eager :=
    later_after rfl (by decide +kernel) (by decide +kernel)
  have hstaffed : eager.Later staffed :=
    later_after (by decide +kernel) (by decide +kernel) (by decide +kernel)
  have hpushed : staffed.Later (staffed.after (.push 0 (.mk "a" [] [.stop 1] .success)) 3) :=
    later_after (by decide +kernel) (by decide +kernel) (by decide +kernel)
  have hpublished : Later _ dismissing :=
    later_after (by decide +kernel) (by decide +kernel) (by decide +kernel)
  exact ((heager.trans hstaffed).trans hpushed).trans hpublished

/-- The call is a delivery that has still to tell a listener. -/
def willTell (l : Listener) : Frame → Bool
  | .delivering _ rest _ => rest.contains l
  | _ => false

theorem stopped_for_good_of_dismissing :
    vacant.Unwatched ∧ Later ⟨vacant, [], .running⟩ dismissing ∧
    dismissing.stack.any (willTell (.watcher 1)) = true ∧
    (dismissing.world.task 1).cell.state = .ready ∧ Stops 1 dismissing dismissing.step ∧
    (∃ v, dismissing.world.watchers[1]? = some v ∧ dismissing.world.Lists 1 v) ∧
    dismissing.world.Submission dismissing.submits? dismissing.step.world ∧
    dismissing.step.AtRest 1 ∧ (dismissing.step.world.task 1).cell.state = .waiting := by
  have hvacant : vacant.Unwatched :=
    { watchers := rfl
      recorders := rfl
      subscriptions := fun c => by rcases c with _ | c <;> rfl }
  have hstops : Stops 1 dismissing dismissing.step := by
    refine ⟨by decide +kernel, begins_of_stops? ?_⟩
    decide +kernel
  obtain ⟨v, hv, hwatcher⟩ : ∃ v, dismissing.world.watchers[1]? = some v ∧
      v.task = 1 ∧ v.channel = 0 ∧ v.active = true := by
    refine ⟨_, List.getElem?_eq_getElem (by decide +kernel), ?_⟩
    decide +kernel
  obtain ⟨htask, hchannel, hactive⟩ := hwatcher
  obtain ⟨hlists, hsubmission, hrest⟩ := stopped_for_good hvacant later_dismissing
  obtain ⟨hatRest, hidle⟩ := hrest 1 _ hstops
  -- had it been stopped before, it would not be active
  have hfirst : ∀ m₁ m₂, Later ⟨vacant, [], .running⟩ m₁ → Stops 1 m₁ m₂ →
      ¬m₂.Later dismissing := by
    intro m₁ m₂ hm₁ hbefore hm₂
    obtain ⟨u, hu, hinactive⟩ := hbefore.leaves.1
    have hkept := (hvacant.kept .running).of_later (hm₁.trans hbefore.later)
    obtain ⟨u', hu', hinactive'⟩ := hkept.inactive_later hu hinactive hm₂
    cases hv.symm.trans hu'
    rw [hactive] at hinactive'
    cases hinactive'
  have hstate := hidle hfirst v hv
  rw [htask] at hstate
  refine ⟨hvacant, later_dismissing, by decide +kernel, by decide +kernel, hstops,
    ⟨v, hv, hlists 1 v hv ?_⟩, hsubmission _ .step, hatRest, hstate⟩
  rw [hchannel]
  decide +kernel

/-- The delivery passes over the watcher that was stopped meanwhile. -/
example : (steps 14 dismissing).stack.length = 0 ∧
    (walk 14 dismissing).all (·.submits? != some 1) = true := by decide +kernel

end Machine
end StoreClient.Tasks

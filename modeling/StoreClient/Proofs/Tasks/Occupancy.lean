import StoreClient.Proofs.Tasks.Pool

/-! # Drains at work

How many drains are at work on a task, and how often it was made ready.  A `Crew` is a task with
the calls on it, over a queue of which nothing is known: each poll may answer an item, find the
queue empty or panic.  `Crew.Run` collects the crews that any interleaving of atomic steps leads to
from an idle task, each with its past.

A step of a call takes the state word and the drain that moved along together
(`Call.step_active`), but for a drain that comes to give the task back after somebody forced it to
be idle.  So drains are at work as the word says, and at most one more for each time that `Running`
was overwritten; and every time that the task was made ready was claimed, overwritten, or is still
to be claimed (`Crew.occupancy`). -/

namespace StoreClient.Tasks

/-- 1 if the state word is as given, and 0 otherwise. -/
def Cell.has (k : Cell) (s : TaskState) : Nat := if k.state = s then 1 else 0

/-- The step of the call is that of a signal that makes an idle task ready. -/
def Call.grants (c : Call) (k : Cell) : Bool :=
  (c = .signal .attempt || c = .signal .retry) && k.state = .waiting

/-- The step of the call is that of a drain that takes a ready task. -/
def Call.claims (c : Call) (k : Cell) : Bool := c = .drain .claim && k.state = .ready

/-- The shared words of a task, and the calls on it so far. -/
structure Crew where
  cell : Cell := {}
  calls : List Call := []
  deriving DecidableEq, Repr

/-- What may happen next on a task, whatever its queue answers. -/
inductive Crew.Event where
  /-- A caller is about to signal. -/
  | signal
  /-- A caller begins a drain. -/
  | run
  /-- A caller forces the task to be idle. -/
  | force
  /-- The call at a place takes its next step; a poll finds the queue empty. -/
  | step (place : Nat)
  /-- The poll of the drain at a place answers an item, which the consumer takes. -/
  | serve (place : Nat)
  /-- The poll or the failure hook of the drain at a place panics. -/
  | unwind (place : Nat)
  deriving DecidableEq, Repr

namespace Crew

/-- The call at a place goes on as `x`, and leaves the shared words as `k`. -/
def put (c : Crew) (place : Nat) (k : Cell) (x : Call) : Crew := ⟨k, c.calls.set place x⟩

/-- What an event makes of a crew; nothing, if it cannot happen there. -/
def act (c : Crew) : Event → Option Crew
  | .signal => some { c with calls := c.calls ++ [.signal .attempt] }
  | .run => some { c with calls := c.calls ++ [.drain .claim] }
  | .force => some { c with cell := c.cell.store .waiting }
  | .step place =>
    c.calls[place]?.map fun x => c.put place (x.step c.cell).1 (x.step c.cell).2.1
  | .serve place => if c.calls[place]? = some (.drain .poll) then some c else none
  | .unwind place =>
    if c.calls[place]? = some (.drain .poll) then some (c.put place c.cell (.drain .abandon))
    else none

/-- Drains that have taken the task and not yet tried to give it back. -/
def active (c : Crew) : Nat := c.calls.countP Call.active

/-- The events so far, latest first, each with the crew that it happened to. -/
abbrev Past := List (Crew × Event)

/-- A crew that events lead to from an idle task. -/
inductive Run : Past → Crew → Prop where
  | start : Run [] {}
  | next {past : Past} {c d : Crew} {e : Event} : Run past c → c.act e = some d →
    Run ((c, e) :: past) d

def steps (test : Call → Cell → Bool) : Crew × Event → Bool
  | (c, .step place) => c.calls[place]?.any (test · c.cell)
  | _ => false

/-- The event forces a task to be idle whose state word is as given. -/
def overwrites (s : TaskState) : Crew × Event → Bool
  | (c, .force) => c.cell.state = s
  | _ => false

/-- How often a signal made the task ready. -/
def granted (past : Past) : Nat := past.countP (steps Call.grants)

/-- How often a drain claimed the task. -/
def claimed (past : Past) : Nat := past.countP (steps Call.claims)

/-- How often a caller overwrote a state when it forced the task to be idle. -/
def overwritten (s : TaskState) (past : Past) : Nat := past.countP (overwrites s)

/-- An event happens to the crew that a past led to, and is recorded. -/
def happen (now : Past × Crew) (e : Event) : Option (Past × Crew) :=
  (now.2.act e).map fun d => ((now.2, e) :: now.1, d)

/-- A schedule of which every event can happen is a run. -/
theorem Run.foldlM {past past' : Past} {c d : Crew} {es : List Event} (h : Run past c)
    (hes : es.foldlM happen (past, c) = some (past', d)) : Run past' d := by
  induction es generalizing past c with
  | nil =>
    obtain ⟨rfl, rfl⟩ := Prod.mk.inj (Option.some.inj hes)
    exact h
  | cons e es ih =>
    rw [List.foldlM_cons] at hes
    obtain ⟨now, hnow, hrest⟩ := Option.bind_eq_some_iff.mp hes
    obtain ⟨c', hact, rfl⟩ := Option.map_eq_some_iff.mp hnow
    exact ih (h.next hact) hrest

end Crew

/-! ### What one step does to the count -/

namespace Call

/-- A step that takes the task makes its call active.  Giving it back ends that, and a drain that
comes too late for giving it back was forced out before. -/
theorem step_active (x : Call) (k : Cell) :
    (x.step k).2.1.active.toNat + k.has .running ≤
        x.active.toNat + (x.step k).1.has .running ∧
      ((x.step k).1.state = .running →
        (x.step k).1.has .running + x.active.toNat ≤
          k.has .running + (x.step k).2.1.active.toNat) := by
  obtain ⟨state, rearmed⟩ := k
  cases x with
  | signal s => cases s <;> cases state <;>
      simp [step, Signal.step, Cell.exchange?, Cell.rearm, Cell.has, active]
  | drain d => cases d <;> cases state <;> cases rearmed <;>
      simp [step, Drain.step, Cell.exchange?, Cell.clear, Cell.has, active, Drain.active]
  | returned => simp [step]

/-- Only a grant makes a task ready, and only a claim ends that. -/
theorem step_granted (x : Call) (k : Cell) :
    (x.grants k).toNat + k.has .ready = (x.claims k).toNat + (x.step k).1.has .ready := by
  obtain ⟨state, rearmed⟩ := k
  cases x with
  | signal s => cases s <;> cases state <;>
      simp [grants, claims, step, Signal.step, Cell.exchange?, Cell.rearm, Cell.has]
  | drain d => cases d <;> cases state <;> cases rearmed <;>
      simp [grants, claims, step, Drain.step, Cell.exchange?, Cell.clear, Cell.has]
  | returned => simp [grants, claims, step]

end Call

namespace Crew

variable {past : Past} {c d : Crew} {e : Event}

/-! ### The accounts of a run -/

/-- Drains at work, and grants, against the state word and what was overwritten. -/
structure Accounted (past : Past) (c : Crew) : Prop where
  running_le : c.cell.has .running ≤ c.active
  active_le : c.active ≤ c.cell.has .running + overwritten .running past
  granted_eq : granted past = claimed past + overwritten .ready past + c.cell.has .ready

theorem active_put {place : Nat} {x : Call} (hx : c.calls[place]? = some x) (k : Cell) (y : Call) :
    (c.put place k y).active + x.active.toNat = c.active + y.active.toNat := by
  obtain ⟨hlt, rfl⟩ := List.getElem?_eq_some_iff.mp hx
  have hle := List.boole_getElem_le_countP (p := Call.active) hlt
  have hset : (c.put place k y).active = (c.calls.set place y).countP Call.active := rfl
  have htoNat : ∀ b : Bool, b.toNat = if b = true then 1 else 0 := by decide
  rw [hset, List.countP_set hlt, active, htoNat, htoNat]
  omega

theorem active_enter (x : Call) (hx : x.active = false) :
    ({ c with calls := c.calls ++ [x] } : Crew).active = c.active := by
  simp [active, hx]

theorem Accounted.quiet (h : Accounted past c) (hcell : d.cell = c.cell)
    (hactive : d.active = c.active) (hsteps : ∀ test, steps test (c, e) = false)
    (hover : ∀ s, overwrites s (c, e) = false) : Accounted ((c, e) :: past) d where
  running_le := by
    rw [hcell, hactive]
    exact h.running_le
  active_le := by
    rw [hcell, hactive, overwritten, List.countP_cons_of_neg (by simp [hover])]
    exact h.active_le
  granted_eq := by
    rw [hcell, granted, claimed, overwritten, List.countP_cons_of_neg (by simp [hsteps]),
      List.countP_cons_of_neg (by simp [hsteps]), List.countP_cons_of_neg (by simp [hover])]
    exact h.granted_eq

/-- Forcing a task to be idle overwrites its state, and touches no drain. -/
theorem Accounted.force (h : Accounted past c) :
    Accounted ((c, .force) :: past) { c with cell := c.cell.store .waiting } where
  running_le := Nat.zero_le _
  active_le := by
    have hover : overwritten .running ((c, .force) :: past) =
        overwritten .running past + c.cell.has .running := by
      simp [overwritten, List.countP_cons, overwrites, Cell.has]
    have := h.active_le
    show c.active ≤ 0 + _
    omega
  granted_eq := by
    have hover : overwritten .ready ((c, .force) :: past) =
        overwritten .ready past + c.cell.has .ready := by
      simp [overwritten, List.countP_cons, overwrites, Cell.has]
    have := h.granted_eq
    show granted past = claimed past + _ + 0
    omega

theorem Accounted.step (h : Accounted past c) {place : Nat} {x : Call}
    (hx : c.calls[place]? = some x) :
    Accounted ((c, .step place) :: past) (c.put place (x.step c.cell).1 (x.step c.cell).2.1) := by
  obtain ⟨hupper, hlower⟩ := x.step_active c.cell
  have hput := active_put hx (x.step c.cell).1 (x.step c.cell).2.1
  have hover : ∀ s, overwritten s ((c, .step place) :: past) = overwritten s past := fun _ => rfl
  have htest : ∀ test, ((c, .step place) :: past).countP (steps test) =
      past.countP (steps test) + (test x c.cell).toNat := by
    intro test
    have hsteps : steps test (c, .step place) = test x c.cell := by simp [steps, hx]
    rw [List.countP_cons, hsteps]
    cases test x c.cell <;> rfl
  refine ⟨?_, ?_, ?_⟩
  · show (x.step c.cell).1.has .running ≤ _
    by_cases hr : (x.step c.cell).1.state = .running
    · have := hlower hr
      have := h.running_le
      omega
    · rw [Cell.has, if_neg hr]
      exact Nat.zero_le _
  · rw [hover]
    have := h.active_le
    show _ ≤ (x.step c.cell).1.has .running + _
    omega
  · rw [granted, claimed, htest, htest, hover]
    have hgrant := x.step_granted c.cell
    have hpast := h.granted_eq
    rw [granted, claimed] at hpast
    show _ = _ + (x.step c.cell).1.has .ready
    omega

theorem Run.accounted (h : Run past c) : Accounted past c := by
  induction h with
  | start => exact ⟨Nat.zero_le _, Nat.zero_le _, rfl⟩
  | @next past c d e hrun hact ih =>
    cases e with
    | signal =>
      obtain rfl := Option.some.inj hact
      exact ih.quiet rfl (active_enter _ rfl) (fun _ => rfl) fun _ => rfl
    | run =>
      obtain rfl := Option.some.inj hact
      exact ih.quiet rfl (active_enter _ rfl) (fun _ => rfl) fun _ => rfl
    | force =>
      obtain rfl := Option.some.inj hact
      exact ih.force
    | step place =>
      obtain ⟨x, hx, rfl⟩ := Option.map_eq_some_iff.mp hact
      exact ih.step hx
    | serve place =>
      obtain ⟨-, hd⟩ := Option.ite_none_right_eq_some.mp hact
      obtain rfl := Option.some.inj hd
      exact ih.quiet rfl rfl (fun _ => rfl) fun _ => rfl
    | unwind place =>
      obtain ⟨hx, hd⟩ := Option.ite_none_right_eq_some.mp hact
      obtain rfl := Option.some.inj hd
      have hput := active_put hx c.cell (.drain .abandon)
      exact ih.quiet rfl (Nat.add_right_cancel hput) (fun _ => rfl) fun _ => rfl

theorem overwritten_eq_zero (h : ∀ m ∈ past, m.2 ≠ .force) (s : TaskState) :
    overwritten s past = 0 := by
  refine List.countP_eq_zero.mpr fun m hm => ?_
  have hforce := h m hm
  unfold overwrites
  split
  · exact absurd rfl hforce
  · exact Bool.false_ne_true

/-- Where nobody forces the task to be idle, two drains never overlap. -/
theorem Run.active_le_one (h : Run past c) (hforce : ∀ m ∈ past, m.2 ≠ .force) :
    c.active ≤ 1 := by
  have hle := h.accounted.active_le
  rw [overwritten_eq_zero hforce] at hle
  have hone : c.cell.has .running ≤ 1 := by
    unfold Cell.has
    split <;> decide
  omega

/-- In every crew that any interleaving leads to, as many drains are at work as the state word
says, or up to as many more as `Running` was overwritten, and never more than one where nobody
forced the task to be idle.  The task was made ready once for every drain that claimed it, for
every `Ready` that was overwritten, and for a drain that is still owed. -/
theorem occupancy (h : Run past c) :
    c.cell.has .running ≤ c.active ∧
      c.active ≤ c.cell.has .running + overwritten .running past ∧
      ((∀ m ∈ past, m.2 ≠ .force) → c.active ≤ 1) ∧
      granted past = claimed past + overwritten .ready past + c.cell.has .ready :=
  ⟨h.accounted.running_le, h.accounted.active_le, h.active_le_one, h.accounted.granted_eq⟩

/-- Somebody forces the task to be idle while a drain serves an item, and a second drain claims it
before the first is done. -/
def overlapping : List Event :=
  [.signal, .step 0, .run, .step 1, .step 1, .serve 1, .force, .signal, .step 2, .run, .step 3]

theorem occupancy_of_overlapping :
    ∃ past c, Run past c ∧ c.active = 2 ∧ c.cell.has .running = 1 ∧
      overwritten .running past = 1 ∧ granted past = 2 ∧
      c.active ≤ c.cell.has .running + overwritten .running past ∧
      granted past = claimed past + overwritten .ready past + c.cell.has .ready := by
  obtain ⟨past, c, hes, hcounts⟩ : ∃ past c, overlapping.foldlM happen ([], {}) = some (past, c) ∧
      c.active = 2 ∧ c.cell.has .running = 1 ∧ overwritten .running past = 1 ∧
      granted past = 2 := ⟨_, _, rfl, by decide⟩
  have hrun := Run.start.foldlM hes
  obtain ⟨hactive, hrunning, hover, hgranted⟩ := hcounts
  obtain ⟨-, hle, -, heq⟩ := occupancy hrun
  exact ⟨past, c, hrun, hactive, hrunning, hover, hgranted, hle, heq⟩

end Crew

/-! ### Pools -/

namespace Pool

variable {α : Type} {p q : Pool α} {a : Act α}

def crew (p : Pool α) : Crew := ⟨p.cell, p.calls⟩

/-- Whatever happens to a pool happens to its crew. -/
theorem exists_event (h : p.act a = some q) :
    ∃ e, p.crew.act e = some q.crew ∧ (e = .force → a = .signalWaiting) := by
  cases a with
  | push x =>
    obtain rfl := Option.some.inj h
    exact ⟨.signal, rfl, nofun⟩
  | signal =>
    obtain rfl := Option.some.inj h
    exact ⟨.signal, rfl, nofun⟩
  | signalWaiting =>
    obtain rfl := Option.some.inj h
    exact ⟨.force, rfl, fun _ => rfl⟩
  | run =>
    obtain rfl := Option.some.inj h
    exact ⟨.run, rfl, nofun⟩
  | advance place =>
    rcases advance_cases h with ⟨x, rest, hx, -, rfl⟩ | ⟨c, hc, -, rfl⟩
    · exact ⟨.serve place, if_pos hx, nofun⟩
    · refine ⟨.step place, ?_, nofun⟩
      show p.calls[place]?.map _ = _
      rw [hc]
      rfl
  | unwind place =>
    obtain ⟨hx, hq⟩ := Option.ite_none_right_eq_some.mp h
    obtain rfl := Option.some.inj hq
    exact ⟨.unwind place, if_pos hx, nofun⟩

/-- At most one drain is at work on a pool that nobody forces to be idle. -/
theorem active_le_one {allowed : Pool α → Act α → Bool} (h : Reachable allowed p)
    (calm : ∀ p, allowed p .signalWaiting = false) : p.crew.active ≤ 1 := by
  obtain ⟨past, hrun, hforce⟩ : ∃ past, Crew.Run past p.crew ∧ ∀ m ∈ past, m.2 ≠ .force := by
    induction h with
    | start => exact ⟨[], .start, nofun⟩
    | @next p q a hp ha hact ih =>
      obtain ⟨past, hrun, hforce⟩ := ih
      obtain ⟨e, he, hwaiting⟩ := exists_event hact
      refine ⟨(p.crew, e) :: past, hrun.next he, ?_⟩
      intro m hm
      rcases List.mem_cons.mp hm with rfl | hm
      · rintro rfl
        rw [hwaiting rfl, calm p] at ha
        exact Bool.false_ne_true ha
      · exact hforce m hm
  exact hrun.active_le_one hforce

end Pool
end StoreClient.Tasks

import StoreClient.Tasks.Cell
import Mathlib.Data.List.Basic

/-! # Many callers of one task

A `Pool` is a task over a queue with the calls that are under way on it.  `Pool.act` lets one call
take one atomic step of `Signal.step` or `Drain.step`, or begins a new call, so that a list of
`Act`s is an interleaving of any number of callers; a caller that is inside several calls shows as
several calls, of which it lets the innermost move.  `Pool.Reachable` collects the pools that such
steps lead to from an idle task. -/

namespace StoreClient.Tasks

/-- A call on a task, at the point that it has come to. -/
inductive Call where
  | signal (point : Signal)
  | drain (point : Drain)
  | returned
  deriving DecidableEq, Repr

namespace Call

/-- One atomic step on the shared words: the words, the call, and whether the step answers that a
drain is owed.  At `poll`, the step of a queue that is found empty. -/
def step : Call → Cell → Cell × Call × Bool
  | signal s, k =>
    match s.step k with
    | (k', .goTo s') => (k', signal s', false)
    | (k', .done owed) => (k', returned, owed)
  | drain d, k =>
    match d.step k with
    | (k', .goTo d') => (k', drain d', false)
    | (k', .done ()) => (k', returned, false)
  | returned, k => (k, returned, false)

/-- A drain that has taken the task and not yet tried to give it back. -/
def active : Call → Bool
  | drain d => d.active
  | _ => false

end Call

/-- A task over a queue of items, and the calls on it so far. -/
structure Pool (α : Type) where
  cell : Cell := {}
  queue : List α := []
  calls : List Call := []
  /-- How many signals answered that a drain is owed. -/
  granted : Nat := 0
  /-- How many drains were begun. -/
  begun : Nat := 0
  /-- The items that were pushed, in order. -/
  pushed : List α := []
  /-- The items that drains handed to the consumer, in order. -/
  handed : List α := []
  deriving DecidableEq, Repr

/-- What may happen next on a task. -/
inductive Act (α : Type) where
  /-- A caller pushes an item and is about to signal. -/
  | push (item : α)
  /-- A caller is about to signal. -/
  | signal
  /-- A caller forces the task to be idle. -/
  | signalWaiting
  /-- A caller begins a drain. -/
  | run
  /-- The call at a place takes its next step. -/
  | advance (place : Nat)
  /-- The poll or the failure hook of the drain at a place panics. -/
  | unwind (place : Nat)
  deriving DecidableEq, Repr

namespace Pool

variable {α : Type}

/-- The call at a place goes on as `c`, and leaves the shared words as `k`. -/
def put (p : Pool α) (place : Nat) (k : Cell) (c : Call) : Pool α :=
  { p with cell := k, calls := p.calls.set place c }

def enter (p : Pool α) (c : Call) : Pool α := { p with calls := p.calls ++ [c] }

/-- A poll takes the oldest item and hands it to the consumer. -/
def take? (p : Pool α) : Option (Pool α) :=
  match p.queue with
  | [] => none
  | x :: rest => some { p with queue := rest, handed := p.handed ++ [x] }

def move (p : Pool α) (place : Nat) (c : Call) : Pool α :=
  let (k, c', owed) := c.step p.cell
  { p.put place k c' with granted := p.granted + owed.toNat }

def advance (p : Pool α) (place : Nat) : Option (Pool α) :=
  match p.calls[place]? with
  | none => none
  | some (.drain .poll) => some (p.take?.getD (p.move place (.drain .poll)))
  | some c => some (p.move place c)

/-- What an act makes of a pool; nothing, if it cannot happen there. -/
def act (p : Pool α) : Act α → Option (Pool α)
  | .push x =>
    some { p.enter (.signal .attempt) with queue := p.queue ++ [x], pushed := p.pushed ++ [x] }
  | .signal => some (p.enter (.signal .attempt))
  | .signalWaiting => some { p with cell := p.cell.store .waiting }
  | .run => some { p.enter (.drain .claim) with begun := p.begun + 1 }
  | .advance place => p.advance place
  | .unwind place =>
    if p.calls[place]? = some (.drain .poll) then some (p.put place p.cell (.drain .abandon))
    else none

/-- No call is under way, and each drain that was owed was run. -/
def Settled (p : Pool α) : Prop := (∀ c ∈ p.calls, c = .returned) ∧ p.begun = p.granted

instance (p : Pool α) : Decidable p.Settled := by unfold Settled; infer_instance

/-- The pools that allowed acts lead to from an idle task with an empty queue. -/
inductive Reachable (allowed : Pool α → Act α → Bool) : Pool α → Prop where
  | start : Reachable allowed {}
  | next {p q : Pool α} {a : Act α} :
    Reachable allowed p → allowed p a = true → p.act a = some q → Reachable allowed q

/-- The pool after a schedule, if all of it is allowed. -/
def replay (allowed : Pool α → Act α → Bool) : Pool α → List (Act α) → Option (Pool α)
  | p, [] => some p
  | p, a :: as => if allowed p a then (p.act a).bind (replay allowed · as) else none

theorem Reachable.replay {allowed : Pool α → Act α → Bool} {p q : Pool α} {as : List (Act α)}
    (hp : Reachable allowed p) (h : p.replay allowed as = some q) : Reachable allowed q := by
  induction as generalizing p with
  | nil =>
    rw [Pool.replay, Option.some.injEq] at h
    exact h ▸ hp
  | cons a as ih =>
    rw [Pool.replay, Option.ite_none_right_eq_some, Option.bind_eq_some_iff] at h
    obtain ⟨ha, p', hact, hrest⟩ := h
    exact ih (hp.next ha hact) hrest

/-! ### What one step changes -/

section move
variable (p : Pool α) (place : Nat) (c : Call)

@[simp] theorem move_cell : (p.move place c).cell = (c.step p.cell).1 := rfl

theorem move_calls :
    (p.move place c).calls = (p.put place (c.step p.cell).1 (c.step p.cell).2.1).calls := rfl

@[simp] theorem move_granted :
    (p.move place c).granted = p.granted + (c.step p.cell).2.2.toNat := rfl

@[simp] theorem move_begun : (p.move place c).begun = p.begun := rfl

end move

theorem mem_calls_put {p : Pool α} {place : Nat} {k : Cell} {c x : Call}
    (hx : p.calls[place]? = some x) : c ∈ (p.put place k c).calls := by
  obtain ⟨hlt, -⟩ := List.getElem?_eq_some_iff.mp hx
  exact List.mem_set hlt c

theorem mem_calls_put_of_ne {p : Pool α} {place : Nat} {k : Cell} {c x z : Call}
    (hx : p.calls[place]? = some x) (hz : z ∈ p.calls) (hne : z ≠ x) :
    z ∈ (p.put place k c).calls := by
  obtain ⟨i, hi, rfl⟩ := List.getElem_of_mem hz
  have : i ≠ place := by
    rintro rfl
    obtain ⟨_, h⟩ := List.getElem?_eq_some_iff.mp hx
    exact hne h
  refine List.mem_iff_getElem.mpr ⟨i, by simpa [put] using hi, ?_⟩
  simp [put, List.getElem_set_ne this.symm]

theorem eq_or_mem_of_mem_calls_put {p : Pool α} {place : Nat} {k : Cell} {c z : Call}
    (hz : z ∈ (p.put place k c).calls) : z = c ∨ z ∈ p.calls :=
  (List.mem_or_eq_of_mem_set hz).symm

/-- A step of a call hands out the oldest item, or is one on the shared words. -/
theorem advance_cases {p q : Pool α} {place : Nat} (h : p.advance place = some q) :
    (∃ x rest, p.calls[place]? = some (.drain .poll) ∧ p.queue = x :: rest ∧
      q = { p with queue := rest, handed := p.handed ++ [x] }) ∨
    ∃ c, p.calls[place]? = some c ∧ (c = .drain .poll → p.queue = []) ∧ q = p.move place c := by
  unfold advance at h
  split at h
  · simp at h
  · next hc =>
    rw [Option.some.injEq] at h
    cases hq : p.queue with
    | nil =>
      rw [take?, hq, Option.getD_none] at h
      exact .inr ⟨_, hc, fun _ => rfl, h.symm⟩
    | cons x rest =>
      rw [take?, hq, Option.getD_some] at h
      exact .inl ⟨x, rest, hc, rfl, h.symm⟩
  · next c hne hc =>
    rw [Option.some.injEq] at h
    refine .inr ⟨c, hc, ?_, h.symm⟩
    rintro rfl
    exact absurd rfl (hne ·)

end Pool
end StoreClient.Tasks

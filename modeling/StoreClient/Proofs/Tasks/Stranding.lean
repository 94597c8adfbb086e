import StoreClient.Proofs.Tasks.Wakeups
import Mathlib.Algebra.BigOperators.Group.List.Basic
import Mathlib.Algebra.Ring.Nat

/-! # Items left behind

Once a flag is stolen, nobody attends the queue (`Pool.not_attended_of_steals`), and nothing but a
new signal would change that.  If none comes, every call returns and every drain that is owed runs
and returns with the items still queued: `Pool.exists_nearer` takes one more step towards that, and
`Pool.stranded_of_not_attended` all of them.

So a flag stolen is exactly what can leave items behind (`Pool.left_behind_exactly`). -/

namespace StoreClient.Tasks

/-- The steps that a call still takes while nobody attends the queue. -/
def Call.remaining : Call → Nat
  | .returned => 0
  | .drain .release => 2
  | _ => 1

theorem Call.remaining_pos {c : Call} (hc : c ≠ .returned) : 0 < c.remaining := by
  cases c with
  | signal s => exact Nat.zero_lt_one
  | drain d => cases d <;> decide
  | returned => exact absurd rfl hc

/-- Where nobody attends the queue, a call returns at once and changes nothing, unless it is a
drain that has the task. -/
theorem Call.step_of_not_attends {c : Call} {k : Cell} (hk : k.attended = false)
    (hc : c.attends k = false) (habandon : c ≠ .drain .abandon)
    (hrelease : c = .drain .release → k.state ≠ .running) : c.step k = (k, .returned, false) := by
  obtain ⟨state, rearmed⟩ := k
  cases c with
  | signal s => cases s <;> cases state <;>
      simp_all [step, Signal.step, Cell.exchange?, attends, Cell.attended]
  | drain d => cases d <;> cases state <;> cases rearmed <;>
      simp_all [step, Drain.step, Cell.exchange?, attends, Cell.attended, Cell.clear]
  | returned => rfl

/-- While a drain has the task, only alert calls attend the queue. -/
theorem Call.attends_of_not_alert {c : Call} {k : Cell} (hk : k.state = .running)
    (hc : c.alert = false) : c.attends k = false := by
  obtain ⟨state, rearmed⟩ := k
  subst hk
  cases c with
  | signal s => cases s <;> simp_all [attends, alert]
  | drain d => cases d <;> simp_all [attends, alert]
  | returned => rfl

namespace Pool

variable {α : Type}

/-- The steps that the calls still take, and those of the drains that are owed. -/
def remaining (p : Pool α) : Nat := (p.calls.map Call.remaining).sum + 2 * (p.granted - p.begun)

theorem not_attended_iff {p : Pool α} :
    ¬p.Attended ↔ p.cell.attended = false ∧ ∀ c ∈ p.calls, c.attends p.cell = false := by
  simp [Attended]

/-- A call that goes on changes the sum over all calls by its own step. -/
theorem sum_move {p : Pool α} {place : Nat} {c : Call} (hc : p.calls[place]? = some c) :
    ((p.move place c).calls.map Call.remaining).sum + c.remaining =
      (p.calls.map Call.remaining).sum + (c.step p.cell).2.1.remaining := by
  obtain ⟨hlt, rfl⟩ := List.getElem?_eq_some_iff.mp hc
  have hset : ((p.move place p.calls[place]).calls.map Call.remaining).sum =
      ((p.calls.map Call.remaining).set place
        (p.calls[place].step p.cell).2.1.remaining).sum := by
    rw [← List.map_set]
    rfl
  have hsplit := List.sum_take_add_sum_drop (p.calls.map Call.remaining) place
  rw [List.drop_eq_getElem_cons (by simpa using hlt), List.sum_cons, List.getElem_map] at hsplit
  rw [hset, List.sum_set, if_pos (by simpa using hlt)]
  omega

/-- A step leaves nobody to see to the queue if none of the words, the call that moved and the
others does. -/
theorem not_attended_move {p : Pool α} {place : Nat} {c : Call}
    (hk : (c.step p.cell).1.attended = false)
    (hmoved : (c.step p.cell).2.1.attends (c.step p.cell).1 = false)
    (hothers : ∀ z ∈ p.calls, z.attends (c.step p.cell).1 = false) :
    ¬(p.move place c).Attended := by
  refine not_attended_iff.mpr ⟨hk, ?_⟩
  intro z hz
  rw [move_calls] at hz
  rcases eq_or_mem_of_mem_calls_put hz with rfl | hz
  · exact hmoved
  · exact hothers z hz

/-! ### A flag stolen -/

/-- Who steals a flag leaves nobody to see to the queue. -/
theorem not_attended_of_steals {p q : Pool α} {a : Act α} (hs : a.steals p = true)
    (hq : p.act a = some q) : q.queue ≠ [] ∧ ¬q.Attended := by
  cases a with
  | advance place =>
    simp only [Act.steals, Bool.and_eq_true, decide_eq_true_iff, Bool.not_eq_true',
      List.isEmpty_eq_false_iff] at hs
    obtain ⟨⟨⟨⟨hc, hrun⟩, hflag⟩, halert⟩, hne⟩ := hs
    rcases advance_cases hq with ⟨x, rest, hpoll, _, rfl⟩ | ⟨c, hc', _, rfl⟩
    · rw [hc] at hpoll
      simp at hpoll
    · obtain rfl : c = .drain .swap := by
        rw [hc] at hc'
        exact (Option.some.inj hc').symm
      have hstep : Call.step (.drain .swap) p.cell = (p.cell.clear, .drain .reclaim, false) := by
        simp [Call.step, Drain.step, hflag]
      have hrunning : (Call.step (.drain .swap) p.cell).1.state = .running := by
        rw [hstep]
        exact hrun
      refine ⟨hne, not_attended_move ?_ ?_ ?_⟩
      · rw [hstep]
        simp [Cell.attended, Cell.clear, hrun]
      · apply Call.attends_of_not_alert hrunning
        rw [hstep]
        rfl
      · intro z hz
        apply Call.attends_of_not_alert hrunning
        exact Bool.eq_false_iff.mpr (List.any_eq_false.mp halert z hz)
  | push x => exact absurd hs Bool.false_ne_true
  | signal => exact absurd hs Bool.false_ne_true
  | signalWaiting => exact absurd hs Bool.false_ne_true
  | run => exact absurd hs Bool.false_ne_true
  | unwind place => exact absurd hs Bool.false_ne_true

/-! ### Nobody comes back for the items -/

theorem advance_eq_move {p : Pool α} {place : Nat} {c : Call} (hc : p.calls[place]? = some c)
    (hpoll : c ≠ .drain .poll) : p.advance place = some (p.move place c) := by
  unfold advance
  rw [hc]
  split
  · next h => simp at h
  · next h => exact absurd (Option.some.inj h) hpoll
  · next h => rw [Option.some.inj h]

/-- One step nearer to where every call has returned: the queue is as it was, still nobody attends
it, and less remains to be done. -/
structure Nearer (p q : Pool α) : Prop where
  queue_eq : q.queue = p.queue
  not_attended : ¬q.Attended
  remaining_lt : q.remaining < p.remaining

theorem nearer_of_returns {p : Pool α} {place : Nat} {c : Call} (hn : ¬p.Attended)
    (hc : p.calls[place]? = some c) (hret : c ≠ .returned)
    (hstep : c.step p.cell = (p.cell, .returned, false)) : Nearer p (p.move place c) := by
  obtain ⟨hk, hcalls⟩ := not_attended_iff.mp hn
  refine ⟨rfl, ?_, ?_⟩
  · apply not_attended_move
    · rw [hstep]
      exact hk
    · rw [hstep]
      rfl
    · rw [hstep]
      exact hcalls
  · have ht : ((p.move place c).calls.map Call.remaining).sum + c.remaining =
        (p.calls.map Call.remaining).sum + 0 := by
      rw [sum_move hc, hstep]
      rfl
    have hpos := Call.remaining_pos hret
    unfold remaining
    rw [move_granted, move_begun, hstep, Bool.toNat_false]
    omega

/-- A drain that is owed begins, and will find that the task is not ready. -/
theorem nearer_run {p : Pool α} (hn : ¬p.Attended) (howed : p.begun < p.granted) :
    Nearer p { p.enter (.drain .claim) with begun := p.begun + 1 } := by
  obtain ⟨hk, hcalls⟩ := not_attended_iff.mp hn
  refine ⟨rfl, not_attended_iff.mpr ⟨hk, ?_⟩, ?_⟩
  · intro z hz
    rcases List.mem_append.mp hz with hz | hz
    · exact hcalls z hz
    · rw [List.mem_singleton.mp hz]
      rfl
  · show ((p.calls ++ [Call.drain .claim]).map Call.remaining).sum +
      2 * (p.granted - (p.begun + 1)) <
      (p.calls.map Call.remaining).sum + 2 * (p.granted - p.begun)
    have hone : (Call.drain .claim).remaining = 1 := rfl
    rw [List.map_append, List.sum_append, List.map_singleton, List.sum_singleton, hone]
    omega

/-- The drain that has the task releases it, and will find no flag. -/
theorem nearer_release {p : Pool α} {place : Nat} (hn : ¬p.Attended)
    (hc : p.calls[place]? = some (.drain .release)) (hrun : p.cell.state = .running)
    (hothers : ∀ z ∈ p.calls, z = .returned ∨ z = .drain .release) :
    Nearer p (p.move place (.drain .release)) := by
  obtain ⟨hk, -⟩ := not_attended_iff.mp hn
  have hflag : p.cell.rearmed = false := by
    simpa [Cell.attended, hrun] using hk
  have hstep : Call.step (.drain .release) p.cell =
      ({ p.cell with state := .waiting }, .drain .swap, false) := by
    simp [Call.step, Drain.step, Cell.exchange?, hrun]
  refine ⟨rfl, ?_, ?_⟩
  · apply not_attended_move
    · rw [hstep]
      rfl
    · rw [hstep]
      simp [Call.attends, hflag]
    · intro z hz
      rcases hothers z hz with h | h
      · rw [h]
        rfl
      · rw [h]
        rfl
  · have ht : ((p.move place (.drain .release)).calls.map Call.remaining).sum + 2 =
        (p.calls.map Call.remaining).sum + 1 := by
      have ht := sum_move hc
      rw [hstep] at ht
      exact ht
    unfold remaining
    rw [move_granted, move_begun, hstep, Bool.toNat_false]
    omega

/-- As long as a call is under way or a drain is owed, a step leads nearer to the end. -/
theorem exists_nearer {p : Pool α} (kept : p.Kept) (hn : ¬p.Attended) (hs : ¬p.Settled) :
    ∃ a q, a.orderly p = true ∧ p.act a = some q ∧ Nearer p q := by
  obtain ⟨hk, hcalls⟩ := not_attended_iff.mp hn
  by_cases hidle : ∃ c ∈ p.calls, c ≠ .returned ∧ (c = .drain .release → p.cell.state ≠ .running)
  · obtain ⟨c, hm, hret, hrelease⟩ := hidle
    obtain ⟨place, hc⟩ := List.getElem?_of_mem hm
    have habandon : c ≠ .drain .abandon := by
      rintro rfl
      exact kept.not_unwinding hm
    have hpoll : c ≠ .drain .poll := by
      rintro rfl
      exact Bool.false_ne_true (hcalls _ hm).symm
    have hstep := Call.step_of_not_attends hk (hcalls c hm) habandon hrelease
    exact ⟨.advance place, p.move place c, rfl, advance_eq_move hc hpoll,
      nearer_of_returns hn hc hret hstep⟩
  by_cases howed : p.begun < p.granted
  · exact ⟨.run, _, decide_eq_true howed, rfl, nearer_run hn howed⟩
  · -- what is left is the drain that has the task
    have hholder : ∀ c ∈ p.calls, c ≠ .returned → c = .drain .release ∧ p.cell.state = .running := by
      intro c hm hret
      by_contra hcon
      exact hidle ⟨c, hm, hret, fun hc hr => hcon ⟨hc, hr⟩⟩
    have hleft : ∃ c ∈ p.calls, c ≠ .returned := by
      by_contra hcon
      refine hs ⟨fun c hm => ?_, Nat.le_antisymm kept.begun_le (Nat.not_lt.mp howed)⟩
      by_contra hret
      exact hcon ⟨c, hm, hret⟩
    obtain ⟨c, hm, hret⟩ := hleft
    obtain ⟨rfl, hrun⟩ := hholder c hm hret
    obtain ⟨place, hc⟩ := List.getElem?_of_mem hm
    refine ⟨.advance place, _, rfl, advance_eq_move hc (by simp), nearer_release hn hc hrun ?_⟩
    intro z hz
    by_cases hz' : z = .returned
    · exact .inl hz'
    · exact .inr (hholder z hz hz').1

/-- From where nobody attends the queue, all calls may return and all drains that are owed may run
without anybody taking an item. -/
theorem stranded_of_not_attended {p : Pool α} (kept : p.Kept) (hn : ¬p.Attended) :
    ∃ as q, p.replay Act.orderly as = some q ∧ q.Settled ∧ q.queue = p.queue := by
  induction h : p.remaining using Nat.strongRecOn generalizing p with
  | ind n ih =>
    by_cases hs : p.Settled
    · exact ⟨[], p, rfl, hs, rfl⟩
    · obtain ⟨a, q, ho, hact, hq⟩ := exists_nearer kept hn hs
      obtain ⟨as, r, hr, hsettled, hr'⟩ :=
        ih q.remaining (h ▸ hq.remaining_lt) (kept.act ho hact) hq.not_attended rfl
      refine ⟨a :: as, r, ?_, hsettled, hr'.trans hq.queue_eq⟩
      rw [replay, if_pos ho, hact, Option.bind_some, hr]

/-! ### Exactly when items are left behind -/

/-- A task is left with an empty queue, every item handed to the consumer once and in order, in
every run of orderly callers in which no drain steals a flag; and where a drain steals one, the run
can go on so that items stay queued though every call returned and every owed drain was run. -/
theorem left_behind_exactly (α : Type) :
    (∀ p : Pool α, Reachable (fun p a => a.orderly p && !a.steals p) p → p.Settled →
      p.queue = [] ∧ p.handed = p.pushed) ∧
    ∀ (p q : Pool α) (a : Act α), Reachable Act.orderly p → a.orderly p = true →
      a.steals p = true → p.act a = some q →
        ∃ as r, q.replay Act.orderly as = some r ∧ r.Settled ∧ r.queue ≠ [] := by
  constructor
  · intro p h hs
    exact queue_eq_nil_of_settled h hs
  · intro p q a h ho hs hact
    obtain ⟨hne, hn⟩ := not_attended_of_steals hs hact
    obtain ⟨as, r, hr, hsettled, hqueue⟩ :=
      stranded_of_not_attended ((Kept.of_reachable h).act ho hact) hn
    refine ⟨as, r, hr, hsettled, ?_⟩
    rw [hqueue]
    exact hne

/-- A signal that finds the drain at its release raises the flag, and the drain polls again. -/
def raisedFlag : List (Act Nat) :=
  [.push 1, .advance 0, .run, .advance 1, .advance 1, .advance 1, .advance 1,
    .push 2, .advance 2, .advance 2, .advance 2, .advance 1, .advance 1, .advance 1, .advance 1,
    .advance 1, .advance 1, .advance 1, .advance 1]

/-- The first drain stops behind its release.  The second takes the task and finds the queue empty;
then an item comes and its signal raises the flag, which the first drain is about to clear. -/
def sharedFlag : List (Act Nat) :=
  [.push 1, .advance 0, .run, .advance 1, .advance 1, .advance 1, .advance 1, .advance 1,
    .push 2, .advance 2, .run, .advance 3, .advance 3, .advance 3, .advance 3,
    .push 3, .advance 4, .advance 4]

/-- The first drain clears the flag.  The signal leaves the item to the second drain, and that one
finds no flag. -/
def stolenFlag : List (Act Nat) :=
  sharedFlag ++ [.advance 1, .advance 4, .advance 1, .advance 3, .advance 3]

theorem left_behind_exactly_of_flags :
    (∃ p : Pool Nat, Reachable (fun p a => a.orderly p && !a.steals p) p ∧ p.Settled ∧
      p.pushed = [1, 2] ∧ p.queue = [] ∧ p.handed = p.pushed) ∧
    ∃ p q : Pool Nat, Reachable Act.orderly p ∧ p.pushed = [1, 2, 3] ∧
      p.act (.advance 1) = some q ∧
        ∃ as r, q.replay Act.orderly as = some r ∧ r.Settled ∧ r.queue ≠ [] := by
  constructor
  · obtain ⟨p, hp, hs, hpushed⟩ : ∃ p, replay (fun p a => a.orderly p && !a.steals p) {} raisedFlag
        = some p ∧ p.Settled ∧ p.pushed = [1, 2] := ⟨_, rfl, by decide, rfl⟩
    have hr := Reachable.start.replay hp
    exact ⟨p, hr, hs, hpushed, (left_behind_exactly Nat).1 p hr hs⟩
  · obtain ⟨p, q, hp, hpushed, hs, hq⟩ : ∃ p q, replay Act.orderly {} sharedFlag = some p ∧
        p.pushed = [1, 2, 3] ∧ Act.steals p (.advance 1) = true ∧ p.act (.advance 1) = some q :=
      ⟨_, _, rfl, rfl, by decide, rfl⟩
    have hr := Reachable.start.replay hp
    exact ⟨p, q, hr, hpushed, hq, (left_behind_exactly Nat).2 p q (.advance 1) hr rfl hs hq⟩

theorem item_left_behind :
    ∃ p : Pool Nat, Reachable Act.orderly p ∧ p.Settled ∧ p.queue = [3] ∧ p.handed = [1, 2] := by
  obtain ⟨p, hp, h⟩ : ∃ p, replay Act.orderly {} stolenFlag = some p ∧ p.Settled ∧
      p.queue = [3] ∧ p.handed = [1, 2] := ⟨_, rfl, by decide, rfl, rfl⟩
  exact ⟨p, Reachable.start.replay hp, h⟩

end Pool
end StoreClient.Tasks

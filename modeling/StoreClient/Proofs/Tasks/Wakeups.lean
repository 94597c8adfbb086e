import StoreClient.Proofs.Tasks.Pool

/-! # Wake-ups

Whoever pushes an item and signals may expect that some drain takes it.  While items are queued,
`Pool.Attended` names the one that will see to them: a signal that has still to look at the state,
a drain that has still to poll, or the flag with a drain that will read it.  Every step hands this
duty on but one: a drain that has released the task may clear the flag after another drain took
the task and found the queue empty (`Act.steals`), and the flag was meant for that one.

`Pool.queue_eq_nil_of_settled` says that nothing is left behind where no drain does so. -/

namespace StoreClient.Tasks

/-- Callers push and signal as they like, begin one drain for each signal that answered that one
is owed, and nobody forces the task to be idle or panics inside a drain. -/
def Act.orderly {α : Type} (p : Pool α) : Act α → Bool
  | .push _ | .signal | .advance _ => true
  | .run => p.begun < p.granted
  | .signalWaiting | .unwind _ => false

/-- Whatever the words are: the signal will make the task ready or raise the flag, and the drain
will poll before it tries to release the task. -/
def Call.alert : Call → Bool
  | .signal .attempt | .signal .raise | .drain .clear | .drain .poll => true
  | _ => false

/-- A drain that released the task clears a raised flag while items are queued and another drain
has the task, no drain will poll before it releases the task, and no signal will raise the flag
again. -/
def Act.steals {α : Type} (p : Pool α) : Act α → Bool
  | .advance place =>
    p.calls[place]? = some (.drain .swap) && p.cell.state = .running && p.cell.rearmed &&
      !p.calls.any Call.alert && !p.queue.isEmpty
  | _ => false

/-! ### Who sees to the queue -/

/-- The words say that a drain will poll: one is owed, or the one that has the task will see the
flag after it released it. -/
def Cell.attended (k : Cell) : Bool := k.state = .ready || k.state = .running && k.rearmed

/-- The call will poll the queue, or make sure that a drain does. -/
def Call.attends (k : Cell) : Call → Bool
  | .signal .attempt | .signal .raise | .drain .clear | .drain .poll => true
  | .signal .retry | .drain .reclaim => k.state = .waiting
  | .drain .swap => k.state = .waiting && k.rearmed
  | _ => false

def Pool.Attended {α : Type} (p : Pool α) : Prop :=
  p.cell.attended = true ∨ ∃ c ∈ p.calls, c.attends p.cell = true

namespace Call

theorem attends_of_alert {c : Call} (k : Cell) (hc : c.alert = true) : c.attends k = true := by
  unfold alert at hc
  split at hc
  · rfl
  · rfl
  · rfl
  · rfl
  · exact absurd hc Bool.false_ne_true

/-- A call that is no poll, and that neither steals the flag nor unwinds, keeps its own duty and
that of the words, or hands it on to one of the two. -/
theorem attends_step {c : Call} {k : Cell} (hk : k.attended = true ∨ c.attends k = true)
    (hpoll : c ≠ .drain .poll) (habandon : c ≠ .drain .abandon)
    (hsteal : c = .drain .swap → k.state = .running → k.rearmed = false) :
    (c.step k).1.attended = true ∨ (c.step k).2.1.attends (c.step k).1 = true := by
  obtain ⟨state, rearmed⟩ := k
  cases c with
  | signal s => cases s <;> cases state <;>
      simp_all [step, Signal.step, Cell.exchange?, attends, Cell.attended, Cell.rearm]
  | drain d => cases d <;> cases state <;> cases rearmed <;>
      simp_all [step, Drain.step, Cell.exchange?, attends, Cell.attended, Cell.clear]
  | returned => simpa [step, attends] using hk

/-- While the task is idle, a step keeps it so and clears no flag, unless somebody will poll. -/
theorem step_of_waiting (c : Call) {k : Cell} (hk : k.state = .waiting) :
    (c.step k).1.attended = true ∨ (c.step k).2.1.attends (c.step k).1 = true ∨
      (c.step k).1.state = .waiting ∧ (k.rearmed = true → (c.step k).1.rearmed = true) := by
  obtain ⟨state, rearmed⟩ := k
  subst hk
  cases c with
  | signal s => cases s <;>
      simp [step, Signal.step, Cell.exchange?, attends, Cell.attended, Cell.rearm]
  | drain d => cases d <;> cases rearmed <;>
      simp [step, Drain.step, Cell.exchange?, attends, Cell.attended, Cell.clear]
  | returned => simp [step]

/-- No step of another call relieves a call of its duty without taking it over. -/
theorem attends_of_step {c z : Call} {k : Cell} (hz : z.attends k = true) :
    (c.step k).1.attended = true ∨ (c.step k).2.1.attends (c.step k).1 = true ∨
      z.attends (c.step k).1 = true := by
  by_cases hk : k.state = .waiting
  · rcases c.step_of_waiting hk with h | h | ⟨hw, hr⟩
    · exact .inl h
    · exact .inr (.inl h)
    · refine .inr (.inr ?_)
      unfold attends at hz ⊢
      split at hz <;> simp_all
  · -- only an idle task has calls whose duty depends on the words
    refine .inr (.inr ?_)
    unfold attends at hz ⊢
    split at hz <;> simp_all

/-- Only a signal that answers so makes a task ready, and only a claim ends that. -/
theorem step_ready {c : Call} {k : Cell} (h : (c.step k).1.state = .ready) :
    (c.step k).2.2 = true ∨ k.state = .ready ∧ c ≠ .drain .claim := by
  obtain ⟨state, rearmed⟩ := k
  cases c with
  | signal s => cases s <;> cases state <;>
      simp_all [step, Signal.step, Cell.exchange?, Cell.rearm]
  | drain d => cases d <;> cases state <;> cases rearmed <;>
      simp_all [step, Drain.step, Cell.exchange?, Cell.clear]
  | returned => exact .inr ⟨h, nofun⟩

/-- A task runs after a step only if the call that stepped is an active drain, or it ran before and
the call was none. -/
theorem step_running {c : Call} {k : Cell} (h : (c.step k).1.state = .running) :
    (c.step k).2.1.active = true ∨ k.state = .running ∧ c.active = false := by
  obtain ⟨state, rearmed⟩ := k
  cases c with
  | signal s => cases s <;> cases state <;>
      simp_all [step, Signal.step, Cell.exchange?, Cell.rearm, active]
  | drain d => cases d <;> cases state <;> cases rearmed <;>
      simp_all [step, Drain.step, Cell.exchange?, Cell.clear, active, Drain.active]
  | returned => exact .inr ⟨h, rfl⟩

theorem step_ne_abandon (c : Call) (k : Cell) : (c.step k).2.1 ≠ .drain .abandon := by
  obtain ⟨state, rearmed⟩ := k
  cases c with
  | signal s => cases s <;> cases state <;> simp [step, Signal.step, Cell.exchange?]
  | drain d => cases d <;> cases state <;> cases rearmed <;>
      simp [step, Drain.step, Cell.exchange?]
  | returned => simp [step]

end Call

namespace Pool

variable {α : Type}

/-! ### What orderly callers keep -/

/-- What holds of a task on which nobody forced the state or panicked inside a drain. -/
structure Kept (p : Pool α) : Prop where
  /-- Items leave the queue in the order in which they came. -/
  handed_append : p.handed ++ p.queue = p.pushed
  begun_le : p.begun ≤ p.granted
  owed : p.cell.state = .ready → p.begun < p.granted ∨ .drain .claim ∈ p.calls
  active : p.cell.state = .running → ∃ c ∈ p.calls, c.active = true
  not_unwinding : .drain .abandon ∉ p.calls

namespace Kept

theorem start : Kept ({} : Pool α) where
  handed_append := rfl
  begun_le := Nat.le_refl 0
  owed := nofun
  active := nofun
  not_unwinding := nofun

theorem enter {p : Pool α} (h : p.Kept) {c : Call} (hc : c ≠ .drain .abandon) :
    (p.enter c).Kept where
  handed_append := h.handed_append
  begun_le := h.begun_le
  owed hr := (h.owed hr).imp_right (List.mem_append_left _)
  active hr := by
    obtain ⟨d, hd, ha⟩ := h.active hr
    exact ⟨d, List.mem_append_left _ hd, ha⟩
  not_unwinding hm := by
    rcases List.mem_append.mp hm with hm | hm
    · exact h.not_unwinding hm
    · exact hc (List.mem_singleton.mp hm).symm

theorem push {p : Pool α} (h : p.Kept) (x : α) :
    Kept { p.enter (.signal .attempt) with queue := p.queue ++ [x], pushed := p.pushed ++ [x] } where
  handed_append := by
    show p.handed ++ (p.queue ++ [x]) = p.pushed ++ [x]
    rw [← List.append_assoc, h.handed_append]
  begun_le := h.begun_le
  owed := (h.enter (c := .signal .attempt) nofun).owed
  active := (h.enter (c := .signal .attempt) nofun).active
  not_unwinding := (h.enter (c := .signal .attempt) nofun).not_unwinding

theorem run {p : Pool α} (h : p.Kept) (hlt : p.begun < p.granted) :
    Kept { p.enter (.drain .claim) with begun := p.begun + 1 } where
  handed_append := h.handed_append
  begun_le := hlt
  owed _ := .inr (List.mem_append_right _ (List.mem_singleton_self _))
  active := (h.enter (c := .drain .claim) nofun).active
  not_unwinding := (h.enter (c := .drain .claim) nofun).not_unwinding

theorem take {p : Pool α} (h : p.Kept) {x : α} {rest : List α} (hq : p.queue = x :: rest) :
    Kept { p with queue := rest, handed := p.handed ++ [x] } where
  handed_append := by
    show p.handed ++ [x] ++ rest = p.pushed
    rw [List.append_assoc, ← h.handed_append, hq]
    rfl
  begun_le := h.begun_le
  owed := h.owed
  active := h.active
  not_unwinding := h.not_unwinding

theorem move {p : Pool α} (h : p.Kept) {place : Nat} {c : Call} (hc : p.calls[place]? = some c) :
    (p.move place c).Kept where
  handed_append := h.handed_append
  begun_le := Nat.le_trans h.begun_le (Nat.le_add_right ..)
  owed hr := by
    rw [move_cell] at hr
    rw [move_begun, move_granted, move_calls]
    rcases Call.step_ready hr with hg | ⟨hk, hne⟩
    · have := h.begun_le
      rw [hg]
      exact .inl (Nat.lt_succ_of_le this)
    · rcases h.owed hk with ho | ho
      · exact .inl (Nat.lt_add_right _ ho)
      · exact .inr (mem_calls_put_of_ne hc ho hne.symm)
  active hr := by
    rw [move_cell] at hr
    rw [move_calls]
    rcases Call.step_running hr with ha | ⟨hk, hne⟩
    · exact ⟨_, mem_calls_put hc, ha⟩
    · obtain ⟨d, hd, ha⟩ := h.active hk
      refine ⟨d, mem_calls_put_of_ne hc hd ?_, ha⟩
      rintro rfl
      rw [hne] at ha
      exact Bool.noConfusion ha
  not_unwinding hm := by
    rw [move_calls] at hm
    rcases eq_or_mem_of_mem_calls_put hm with hm | hm
    · exact c.step_ne_abandon p.cell hm.symm
    · exact h.not_unwinding hm

theorem act {p q : Pool α} (h : p.Kept) {a : Act α} (ho : a.orderly p = true)
    (hq : p.act a = some q) : q.Kept := by
  cases a with
  | push x =>
    obtain rfl := Option.some.inj hq
    exact h.push x
  | signal =>
    obtain rfl := Option.some.inj hq
    exact h.enter nofun
  | run =>
    obtain rfl := Option.some.inj hq
    exact h.run (of_decide_eq_true ho)
  | advance place =>
    rcases advance_cases hq with ⟨x, rest, hc, hx, rfl⟩ | ⟨c, hc, hpoll, rfl⟩
    · exact h.take hx
    · exact h.move hc
  | signalWaiting => exact absurd ho Bool.false_ne_true
  | unwind place => exact absurd ho Bool.false_ne_true

theorem of_reachable {p : Pool α} (h : Reachable Act.orderly p) : p.Kept := by
  induction h with
  | start => exact start
  | next _ ho hq ih => exact ih.act ho hq

end Kept

/-! ### The duty is handed on -/

theorem Attended.enter {p : Pool α} (h : p.Attended) (c : Call) : (p.enter c).Attended := by
  rcases h with hk | ⟨d, hd, ha⟩
  · exact .inl hk
  · exact .inr ⟨d, List.mem_append_left _ hd, ha⟩

theorem Attended.move {p : Pool α} (h : p.Attended) (kept : p.Kept) {place : Nat} {c : Call}
    (hc : p.calls[place]? = some c) (hpoll : c = .drain .poll → p.queue = []) (hq : p.queue ≠ [])
    (hsteal : Act.steals p (.advance place) = false) : (p.move place c).Attended := by
  unfold Attended
  rw [move_cell, move_calls]
  have here := mem_calls_put (k := (c.step p.cell).1) (c := (c.step p.cell).2.1) hc
  by_cases hb : ∃ z ∈ p.calls, z ≠ c ∧ z.alert = true
  · obtain ⟨z, hz, hne, ha⟩ := hb
    exact .inr ⟨z, mem_calls_put_of_ne hc hz hne, Call.attends_of_alert _ ha⟩
  · -- nobody else is alert, so the flag, if it is raised, is not stolen
    have hc' : c ≠ .drain .poll := fun e => hq (hpoll e)
    have habandon : c ≠ .drain .abandon := by
      rintro rfl
      exact kept.not_unwinding (List.mem_of_getElem? hc)
    have hflag : c = .drain .swap → p.cell.state = .running → p.cell.rearmed = false := by
      rintro rfl hr
      have hany : p.calls.any Call.alert = false := by
        rw [List.any_eq_false]
        intro z hz hp
        exact hb ⟨z, hz, by rintro rfl; exact Bool.false_ne_true hp, hp⟩
      simpa [Act.steals, hc, hr, hany, hq] using hsteal
    rcases h with hk | ⟨z, hz, ha⟩
    · exact (Call.attends_step (.inl hk) hc' habandon hflag).imp_right fun hy => ⟨_, here, hy⟩
    · by_cases hzc : z = c
      · subst hzc
        exact (Call.attends_step (.inr ha) hc' habandon hflag).imp_right fun hy => ⟨_, here, hy⟩
      · rcases Call.attends_of_step (c := c) ha with hk | hy | hz'
        · exact .inl hk
        · exact .inr ⟨_, here, hy⟩
        · exact .inr ⟨z, mem_calls_put_of_ne hc hz hzc, hz'⟩

/-- An orderly step that steals no flag leaves a queue with items attended. -/
theorem attended_act {p q : Pool α} (kept : p.Kept) (h : p.queue ≠ [] → p.Attended) {a : Act α}
    (ho : a.orderly p = true) (hs : a.steals p = false) (hact : p.act a = some q) :
    q.queue ≠ [] → q.Attended := by
  intro hq
  cases a with
  | push x =>
    obtain rfl := Option.some.inj hact
    exact .inr ⟨.signal .attempt, List.mem_append_right _ (List.mem_singleton_self _), rfl⟩
  | signal =>
    obtain rfl := Option.some.inj hact
    exact (h hq).enter _
  | run =>
    obtain rfl := Option.some.inj hact
    exact (h hq).enter _
  | advance place =>
    rcases advance_cases hact with ⟨x, rest, hc, hx, rfl⟩ | ⟨c, hc, hpoll, rfl⟩
    · -- the drain that takes an item polls again
      exact .inr ⟨.drain .poll, List.mem_of_getElem? hc, rfl⟩
    · exact (h hq).move kept hc hpoll hq hs
  | signalWaiting => exact absurd ho Bool.false_ne_true
  | unwind place => exact absurd ho Bool.false_ne_true

theorem kept_and_attended {p : Pool α}
    (h : Reachable (fun p a => a.orderly p && !a.steals p) p) :
    p.Kept ∧ (p.queue ≠ [] → p.Attended) := by
  induction h with
  | start => exact ⟨.start, fun hq => absurd rfl hq⟩
  | next _ ha hq ih =>
    rw [Bool.and_eq_true, Bool.not_eq_true'] at ha
    exact ⟨ih.1.act ha.1 hq, attended_act ih.1 ih.2 ha.1 ha.2 hq⟩

/-! ### Nothing is left behind -/

/-- A queue that is attended though no call is under way belongs to a task that is owed a drain or
runs one. -/
theorem Attended.state_ne_waiting {p : Pool α} (h : p.Attended) (hc : ∀ c ∈ p.calls, c = .returned) :
    p.cell.state = .ready ∨ p.cell.state = .running := by
  rcases h with hk | ⟨c, hm, ha⟩
  · unfold Cell.attended at hk
    rw [Bool.or_eq_true, Bool.and_eq_true, decide_eq_true_iff, decide_eq_true_iff] at hk
    exact hk.imp_right And.left
  · rw [hc c hm] at ha
    exact absurd ha Bool.false_ne_true

/-- Where no drain steals the flag of another, every item that was pushed has been handed to the
consumer, once and in order, as soon as no call is under way and no drain is owed. -/
theorem queue_eq_nil_of_settled {p : Pool α}
    (h : Reachable (fun p a => a.orderly p && !a.steals p) p) (hs : p.Settled) :
    p.queue = [] ∧ p.handed = p.pushed := by
  obtain ⟨hcalls, hbegun⟩ := hs
  obtain ⟨hp, hattended⟩ := kept_and_attended h
  have hq : p.queue = [] := by
    by_contra hne
    rcases (hattended hne).state_ne_waiting hcalls with hk | hk
    · rcases hp.owed hk with ho | ho
      · omega
      · exact nomatch hcalls _ ho
    · obtain ⟨c, hm, ha⟩ := hp.active hk
      rw [hcalls c hm] at ha
      exact Bool.false_ne_true ha
  refine ⟨hq, ?_⟩
  rw [← hp.handed_append, hq, List.append_nil]

end Pool
end StoreClient.Tasks

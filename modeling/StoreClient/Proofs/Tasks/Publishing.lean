import StoreClient.Proofs.Tasks.Calls
import StoreClient.Proofs.Tasks.Stopping
import StoreClient.Proofs.Tasks.Subscriptions

/-! # Publishing

A delivery tells its listeners one after the other, each in a call of its own on top of it
(`Machine.tells?`).  What such a call does — it may subscribe, unsubscribe, publish — happens to the
world, and the listeners that are left stay those that were collected when the delivery began
(`World.delivers`).  A panic of a listener ends the delivery, and nobody after it is told.

So a changed key reaches exactly the listeners that stand at that moment with a pattern that covers
it, whatever calls have made the notifier what it is (`Notifier.publishes_to_standing`). -/

namespace StoreClient.Tasks
namespace Machine

/-! ### One call of a run -/

/-- The machines of a run as long as there are more calls under way than so many. -/
def during (depth : Nat) (m : Machine) : List Machine := m.trail.takeWhile (depth < ·.stack.length)

/-- The machine where only so many calls are left. -/
def back? (depth : Nat) (m : Machine) : Option Machine := m.trail.find? (·.stack.length ≤ depth)

/-- The listener that the next step tells of an event, by a delivery on top of so many calls. -/
def tells? (depth : Nat) (m : Machine) : Option (Event × Listener) :=
  match m.mode, m.stack with
  | .running, .delivering e (l :: _) _ :: k => if k.length = depth then some (e, l) else none
  | _, _ => none

/-- A listener has panicked and ends the delivery on top of so many calls. -/
def interrupted (depth : Nat) (m : Machine) : Bool :=
  match m.mode, m.stack with
  | .ended (.panic _), .delivering .. :: k => k.length == depth
  | _, _ => false

/-- Who is told by a delivery on top of so many calls, in order. -/
def told (depth : Nat) (m : Machine) : List (Event × Listener) :=
  (m.during depth).filterMap (tells? depth)

/-- The innermost call, on top of others, tells listeners of an event and answers with their number;
if one of them panics, those after it are not told. -/
structure Delivers (k : List Frame) (e : Event) (listeners : List Listener) (count : Nat)
    (m : Machine) : Prop where
  told_prefix : m.told k.length <+: listeners.map (e, ·)
  told_all : (∀ m' ∈ m.during k.length, m'.interrupted k.length = false) →
    m.told k.length = listeners.map (e, ·)
  returns : (∀ m' ∈ m.during k.length, m'.interrupted k.length = false) →
    ∃ w : World, m.back? k.length = some (w.answer (.count count) k)

variable {depth : Nat} {m : Machine}

theorem trail_of_lt (h : depth < m.stack.length) : m.trail = m :: m.step.trail := by
  rw [trail, if_neg (List.ne_nil_of_length_pos (Nat.zero_lt_of_lt h))]

theorem during_of_lt (h : depth < m.stack.length) : m.during depth = m :: m.step.during depth := by
  rw [during, trail_of_lt h, List.takeWhile_cons_of_pos]
  · rfl
  · exact decide_eq_true h

theorem back?_of_lt (h : depth < m.stack.length) : m.back? depth = m.step.back? depth := by
  rw [back?, trail_of_lt h, List.find?_cons_of_neg]
  · rfl
  · rw [decide_eq_true_iff]
    omega

theorem exists_trail_cons (m : Machine) : ∃ rest, m.trail = m :: rest := by
  rw [trail]
  split
  · exact ⟨_, rfl⟩
  · exact ⟨_, rfl⟩

theorem during_of_le (h : m.stack.length ≤ depth) : m.during depth = [] := by
  obtain ⟨rest, hrest⟩ := exists_trail_cons m
  rw [during, hrest, List.takeWhile_cons_of_neg]
  rw [decide_eq_true_iff]
  omega

theorem back?_of_le (h : m.stack.length ≤ depth) : m.back? depth = some m := by
  obtain ⟨rest, hrest⟩ := exists_trail_cons m
  rw [back?, hrest, List.find?_cons_of_pos]
  exact decide_eq_true h

theorem told_of_lt (h : depth < m.stack.length) :
    m.told depth = (m.tells? depth).toList ++ m.step.told depth := by
  rw [told, during_of_lt h, List.filterMap_cons]
  cases m.tells? depth with
  | none => rfl
  | some told => rfl

/-! A call on top of a delivery, as long as it is under way. -/

section
variable (m) (f : Frame) (k : List Frame)

theorem length_stack_above (k : List Frame) :
    (m.above k).stack.length = m.stack.length + k.length := List.length_append

theorem during_above : (m.above (f :: k)).during k.length =
    m.trail.dropLast.map (·.above (f :: k)) ++ (m.run.above (f :: k)).during k.length := by
  rw [during, trail_above, List.takeWhile_append_of_pos]
  · rfl
  · intro m' hm'
    obtain ⟨m₁, -, rfl⟩ := List.mem_map.mp hm'
    rw [decide_eq_true_iff, length_stack_above, List.length_cons]
    omega

theorem back?_above :
    (m.above (f :: k)).back? k.length = (m.run.above (f :: k)).back? k.length := by
  have hnone : (m.trail.dropLast.map (·.above (f :: k))).find? (·.stack.length ≤ k.length) =
      none := by
    rw [List.find?_eq_none]
    intro m' hm'
    obtain ⟨m₁, -, rfl⟩ := List.mem_map.mp hm'
    rw [decide_eq_true_iff, length_stack_above, List.length_cons]
    omega
  rw [back?, trail_above, List.find?_append, hnone]
  rfl

theorem told_above :
    (m.above (f :: k)).told k.length = (m.run.above (f :: k)).told k.length := by
  have hnone : (m.trail.dropLast.map (·.above (f :: k))).filterMap (tells? k.length) = [] := by
    rw [List.filterMap_eq_nil_iff]
    intro m' hm'
    obtain ⟨m₁, hm₁, rfl⟩ := List.mem_map.mp hm'
    obtain ⟨g, fs, hstack⟩ := List.exists_cons_of_ne_nil (stack_ne_nil_of_mem_dropLast m hm₁)
    have hdepth : (fs ++ f :: k).length ≠ k.length := by
      rw [List.length_append, List.length_cons]
      omega
    simp only [tells?, above, hstack, List.cons_append]
    split
    · next _ heq =>
      obtain ⟨-, rfl⟩ := List.cons.inj heq
      exact if_neg hdepth
    · rfl
  rw [told, during_above, List.filterMap_append, hnone]
  rfl

end

/-! ### Deliveries -/

namespace Delivers

variable {k : List Frame} {e : Event} {rest : List Listener} {count : Nat} {d : Frame}

theorem precede {m' : Machine} (before : List Listener)
    (htold : m.told k.length = before.map (e, ·) ++ m'.told k.length)
    (hduring : ∀ m₁ ∈ m'.during k.length, m₁ ∈ m.during k.length)
    (hback : m.back? k.length = m'.back? k.length) (h : Delivers k e rest count m') :
    Delivers k e (before ++ rest) count m := by
  constructor
  · rw [htold, List.map_append, List.prefix_append_right_inj]
    exact h.told_prefix
  · intro hcalm
    rw [htold, List.map_append, h.told_all fun m₁ hm₁ => hcalm m₁ (hduring m₁ hm₁)]
  · intro hcalm
    rw [hback]
    exact h.returns fun m₁ hm₁ => hcalm m₁ (hduring m₁ hm₁)

theorem of_step (hlt : k.length < m.stack.length) (before : List Listener)
    (htells : (m.tells? k.length).toList = before.map (e, ·))
    (h : Delivers k e rest count m.step) : Delivers k e (before ++ rest) count m := by
  refine precede before ?_ ?_ (back?_of_lt hlt) h
  · rw [told_of_lt hlt, htells]
  · intro m₁ hm₁
    rw [during_of_lt hlt]
    exact List.mem_cons_of_mem m hm₁

theorem of_run (h : Delivers k e rest count (m.run.above (d :: k))) :
    Delivers k e rest count (m.above (d :: k)) := by
  refine precede [] (told_above m d k) ?_ (back?_above m d k) h
  intro m₁ hm₁
  rw [during_above]
  exact List.mem_append_right _ hm₁

theorem of_ended (h : ∀ w, Delivers k e rest count ⟨w, .delivering e rest count :: k, .running⟩)
    (w : World) (mode : Mode) :
    Delivers k e rest count ⟨w, .delivering e rest count :: k, mode⟩ := by
  have hlt : k.length < (Machine.mk w (.delivering e rest count :: k) mode).stack.length :=
    Nat.lt_succ_self _
  cases mode with
  | running => exact h w
  | ended result =>
    cases result with
    | answer a => exact of_step hlt [] rfl (h w)
    | panic p =>
      -- the delivery is gone with the next step, and its end speaks for itself
      have hstep : Machine.step ⟨w, .delivering e rest count :: k, .ended (.panic p)⟩ =
          ⟨w, k, .ended (.panic p)⟩ := rfl
      have hback : during k.length ⟨w, k, .ended (.panic p)⟩ = [] := during_of_le (Nat.le_refl _)
      have hduring := during_of_lt hlt
      rw [hstep, hback] at hduring
      have hloud : ¬∀ m' ∈ during k.length
          ⟨w, .delivering e rest count :: k, .ended (.panic p)⟩,
          m'.interrupted k.length = false := by
        intro hcalm
        rw [hduring] at hcalm
        have hlast : (k.length == k.length) = false := hcalm _ List.mem_cons_self
        rw [beq_self_eq_true] at hlast
        cases hlast
      refine ⟨?_, fun hcalm => absurd hcalm hloud, fun hcalm => absurd hcalm hloud⟩
      rw [told, hduring]
      exact List.nil_prefix

end Delivers
end Machine

/-- A delivery tells those who are left to be told. -/
theorem World.delivers (w : World) (e : Event) (listeners : List Listener) (count : Nat)
    (k : List Frame) :
    Machine.Delivers k e listeners count ⟨w, .delivering e listeners count :: k, .running⟩ := by
  induction listeners generalizing w with
  | nil =>
    have hlt : k.length < (Machine.mk w (.delivering e [] count :: k) .running).stack.length :=
      Nat.lt_succ_self _
    have hstep : Machine.step ⟨w, .delivering e [] count :: k, .running⟩ =
        w.answer (.count count) k := rfl
    have hback : (w.answer (.count count) k).stack.length ≤ k.length := Nat.le_refl _
    have htold : Machine.told k.length ⟨w, .delivering e [] count :: k, .running⟩ = [] := by
      rw [Machine.told_of_lt hlt, hstep, Machine.told, Machine.during_of_le hback]
      rfl
    constructor
    · rw [htold]
      exact List.nil_prefix
    · intro _
      exact htold
    · intro _
      rw [Machine.back?_of_lt hlt, hstep, Machine.back?_of_le hback]
      exact ⟨w, rfl⟩
  | cons l rest ih =>
    -- the listener's call runs by itself and then on top of the delivery
    let call : Machine := (w.notify e l).1.enter (w.notify e l).2 []
    have hstep : Machine.step ⟨w, .delivering e (l :: rest) count :: k, .running⟩ =
        call.above (.delivering e rest count :: k) := by
      simp only [Machine.step, World.advance, World.enter, Machine.above, call, List.append_nil,
        List.append_assoc, List.singleton_append]
    have hrun : call.run.above (.delivering e rest count :: k) =
        ⟨call.run.world, .delivering e rest count :: k, call.run.mode⟩ := by
      rw [Machine.above, Machine.run_stack]
      rfl
    have hlt : k.length <
        (Machine.mk w (.delivering e (l :: rest) count :: k) .running).stack.length :=
      Nat.lt_succ_self _
    have htells : Machine.tells? k.length ⟨w, .delivering e (l :: rest) count :: k, .running⟩ =
        some (e, l) := if_pos rfl
    refine Machine.Delivers.of_step hlt [l] (by rw [htells]; rfl) ?_
    rw [hstep]
    apply Machine.Delivers.of_run
    rw [hrun]
    exact Machine.Delivers.of_ended ih _ _

/-! ### Channels -/

namespace World

open Notifier

variable {w w' : World}

theorem exists_replay_subscribe (w : World) (c d : Nat) (pattern : ByteSeq) (l : Listener) :
    ∃ calls, (w.subscribe c pattern l).2.channel d = (replay (w.channel d) calls).2 := by
  rw [channel_subscribe]
  split
  · next h =>
    rw [h.1]
    exact ⟨[.subscribe pattern l], rfl⟩
  · exact ⟨[], rfl⟩

theorem exists_replay_unsubscribe (w : World) (c d id : Nat) :
    ∃ calls, (w.unsubscribe c id).2.channel d = (replay (w.channel d) calls).2 := by
  rw [channel_unsubscribe]
  split
  · next h =>
    rw [h]
    exact ⟨[.unsubscribe id], rfl⟩
  · exact ⟨[], rfl⟩

theorem exists_replay_stop (w : World) (i d : Nat) :
    ∃ calls, (w.stop i).channel d = (replay (w.channel d) calls).2 := by
  cases hheld : w.held? i with
  | none =>
    rw [stop, hheld]
    exact ⟨[], rfl⟩
  | some held =>
    obtain ⟨v, subscription⟩ := held
    rw [stop, hheld]
    cases subscription with
    | none => exact ⟨[], rfl⟩
    | some id => exact (w.modifyWatcher i _).exists_replay_unsubscribe v.channel d id

theorem Change.exists_replay {promises promises' : List (Listener × Nat)} {stopped : Option Nat}
    (h : w.Change promises stopped w' promises') (d : Nat) :
    ∃ calls, w'.channel d = (replay (w.channel d) calls).2 := by
  cases h with
  | still registry => exact ⟨[], channel_congr (Registry.mk.inj registry).1 d⟩
  | failedStart | started | failedSubscribe | subscribed => exact ⟨[], rfl⟩
  | start _ _ registry =>
    rw [channel_congr (Registry.mk.inj registry).1 d]
    exact exists_replay_subscribe _ _ d _ _
  | subscribe _ registry =>
    rw [channel_congr (Registry.mk.inj registry).1 d]
    exact exists_replay_subscribe _ _ d _ _
  | stop => exact w.exists_replay_stop _ d
  | drop => exact w.exists_replay_stop _ d
  | unsubscribe => exact w.exists_replay_unsubscribe _ d _

end World

/-- What a session does to a channel are calls on it. -/
theorem Machine.Later.exists_replay {m m' : Machine} (h : m.Later m') (haimed : m.Aimed) (d : Nat) :
    m'.Aimed ∧ ∃ calls, m'.world.channel d =
      (Notifier.replay (m.world.channel d) calls).2 := by
  induction h with
  | refl => exact ⟨haimed, [], rfl⟩
  | next _ hnext _ ih =>
    obtain ⟨haimed', calls, hcalls⟩ := ih
    obtain ⟨stopped, hchange, hnextAimed, -⟩ := hnext.change haimed'
    obtain ⟨more, hmore⟩ := hchange.exists_replay d
    refine ⟨hnextAimed, calls ++ more, ?_⟩
    rw [hmore, hcalls, Notifier.replay_append]

namespace Notifier

/-- The listeners that stand with a pattern that covers a key, in the order in which they came. -/
def concerned {α : Type} (history : List (Call α × Reply)) (key : Bytes) : List α :=
  ((standing history).filter fun s => decide (Covers s.pattern.content key)).map (·.listener)

/-- Whatever calls, fewer than the counter can count, were made on a notifier: it keeps the
subscriptions that stand under numbers of their own, and a changed key is told to those whose
pattern covers it, wherever the publishing call is made and whatever the listeners do. -/
theorem publishes_to_standing {calls : List (Call Listener)} {key : ByteSeq}
    (hcalls : calls.length < Nat.pow 2 64) (hpatterns : ∀ c ∈ calls, c.Lawful)
    (hkey : key.Built Buffer.Lawful) :
    (replay {} calls).2.Stands (replay {} calls).1 ∧
      ∀ (w : World) (c : Nat), w.channel c = (replay {} calls).2 →
        ∀ k, (w.begin (.publish c (.ok key)) k).Delivers k (.keyChanged key)
          (concerned (replay {} calls).1 key.content)
          (concerned (replay {} calls).1 key.content).length := by
  have hstands := stands_replay hcalls
  refine ⟨hstands, ?_⟩
  intro w c hchannel k
  have hsound : ∀ s ∈ standing (replay {} calls).1, s.pattern.Sound := by
    intro s hs
    have hcall := mem_of_mem_standing hs
    rw [calls_replay] at hcall
    have hlawful : s.pattern.Built Buffer.Lawful := hpatterns _ hcall
    exact hlawful.tidy.sound
  have hinterested : (w.channel c).interested key =
      .ok (concerned (replay {} calls).1 key.content) := by
    rw [hchannel, interested, hstands.subscriptions, select_eq hkey.tidy.sound hsound, concerned]
  have hbegin : w.begin (.publish c (.ok key)) k =
      ⟨w, .delivering (.keyChanged key) (concerned (replay {} calls).1 key.content)
        (concerned (replay {} calls).1 key.content).length :: k, .running⟩ := by
    simp only [World.begin, hinterested]
    rfl
  rw [hbegin]
  exact w.delivers _ _ _ k

/-- Listeners come and one of them goes; then a number is named that nobody has. -/
def turnover : List (Call Listener) :=
  [.subscribe (.array [107, 42]) (.recorder 0), .subscribe (.array [42]) (.recorder 1),
    .unsubscribe 1, .subscribe (.array [42]) (.recorder 1), .unsubscribe 7]

/-- The first listener, when it is told, removes the second and brings a third. -/
def usurped : World where
  channels := [(replay {} turnover).2]
  recorders := [⟨0, [[.unsubscribe 1, .subscribe 0 (.ok (.array [107])) [] []]], [], some 0⟩,
    ⟨0, [], [], some 2⟩]

/-- A key in three pieces. -/
def scatteredKey : ByteSeq := .concat (.ofBuffer (.ring [107] [101])) (.array [121]) 3

theorem publishes_to_standing_of_usurped :
    turnover.length < Nat.pow 2 64 ∧ (∀ c ∈ turnover, c.Lawful) ∧
    scatteredKey.Built Buffer.Lawful ∧
    (replay {} turnover).2.Stands (replay {} turnover).1 ∧
    (usurped.begin (.publish 0 (.ok scatteredKey)) [.settling none]).told 1 =
      [(.keyChanged scatteredKey, .recorder 0), (.keyChanged scatteredKey, .recorder 1)] ∧
    ∃ w : World, (usurped.begin (.publish 0 (.ok scatteredKey)) [.settling none]).back? 1 =
      some (w.answer (.count 2) [.settling none]) := by
  have harray : ∀ bs : Bytes, bs.length ≤ 2 → ByteSeq.Built Buffer.Lawful (.array bs) :=
    fun bs h => .array (Nat.le_trans h (by decide))
  have hpatterns : ∀ c ∈ turnover, c.Lawful := by
    simp only [turnover, List.forall_mem_cons]
    exact ⟨harray _ (by decide), harray _ (by decide), trivial, harray _ (by decide), trivial,
      nofun⟩
  have hring : (Buffer.ring [107] [101]).Lawful := ⟨_, Buffer.holds_ring _ _⟩
  have hkey : scatteredKey.Built Buffer.Lawful :=
    .tryConcat (.buffer hring (by decide)) (harray [121] (by decide)) rfl
  have hcalls : turnover.length < Nat.pow 2 64 := by decide
  obtain ⟨hstands, hdelivers⟩ := publishes_to_standing hcalls hpatterns hkey
  have hpublish := hdelivers usurped 0 rfl [.settling none]
  have hconcerned : concerned (replay {} turnover).1 scatteredKey.content =
      [.recorder 0, .recorder 1] := by decide +kernel
  rw [hconcerned] at hpublish
  have hcalm : ∀ m ∈ (usurped.begin (.publish 0 (.ok scatteredKey)) [.settling none]).during 1,
      m.interrupted 1 = false := by
    rw [Machine.during, Machine.trail_eq_walk (n := 40) (by decide +kernel)]
    decide +kernel
  exact ⟨hcalls, hpatterns, hkey, hstands, hpublish.told_all hcalm, hpublish.returns hcalm⟩

/-- The second listener is gone afterwards, and the third is there. -/
example :
    let m := Machine.steps 40 (usurped.begin (.publish 0 (.ok scatteredKey)) [.settling none])
    (m.world.channel 0).subscriptions.map (·.id) = [0, 3] := by decide +kernel

end Notifier
end StoreClient.Tasks

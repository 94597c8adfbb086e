import StoreClient.Tasks.World

/-! # Registrations

Watchers and recorders come to a channel under numbers, and leave it under the same.  A number is
first in the hands of the call that starts or subscribes, which promises it to the owner of the
listener, then with the owner (`World.number?`).  On its channel it names that listener and no other
(`Numbered`), so a removal takes out one listener and leaves the rest
(`Numbered.registered_unsubscribe`). -/

namespace StoreClient.Tasks

/-! ### Channels -/

namespace World

variable (w : World)

theorem channel_setChannel (c d : Nat) (n : Notifier Listener) :
    (w.setChannel c n).channel d = if d = c ∧ c < w.channels.length then n else w.channel d := by
  simp only [channel, setChannel, List.getElem?_set]
  by_cases hdc : d = c
  · subst hdc
    by_cases hlt : d < w.channels.length
    · simp [hlt]
    · simp [hlt]
  · simp [hdc, Ne.symm hdc]

theorem channel_of_le {c : Nat} (h : w.channels.length ≤ c) : w.channel c = {} := by
  rw [channel, List.getElem?_eq_none h]
  rfl

theorem lt_of_mem_channel {c : Nat} {s : Subscription Listener}
    (hs : s ∈ (w.channel c).subscriptions) : c < w.channels.length := by
  by_cases hlt : c < w.channels.length
  · exact hlt
  · rw [w.channel_of_le (Nat.not_lt.mp hlt)] at hs
    cases hs

theorem length_channels_subscribe (c : Nat) (pattern : ByteSeq) (l : Listener) :
    (w.subscribe c pattern l).2.channels.length = w.channels.length := List.length_set

theorem length_channels_unsubscribe (c id : Nat) :
    (w.unsubscribe c id).2.channels.length = w.channels.length := List.length_set

theorem channel_subscribe (c d : Nat) (pattern : ByteSeq) (l : Listener) :
    (w.subscribe c pattern l).2.channel d =
      if d = c ∧ c < w.channels.length then ((w.channel c).subscribe pattern l).2
      else w.channel d := w.channel_setChannel c d _

theorem channel_unsubscribe (c d id : Nat) :
    (w.unsubscribe c id).2.channel d =
      if d = c then ((w.channel c).unsubscribe id).2 else w.channel d := by
  have hset : (w.unsubscribe c id).2.channel d =
      if d = c ∧ c < w.channels.length then ((w.channel c).unsubscribe id).2
      else w.channel d := w.channel_setChannel c d _
  rw [hset]
  by_cases hdc : d = c
  · subst hdc
    by_cases hlt : d < w.channels.length
    · simp only [hlt, and_self, if_true]
    · rw [w.channel_of_le (Nat.not_lt.mp hlt)]
      simp only [hlt, and_false, if_false, if_true, Notifier.unsubscribe, List.filter_nil]
  · simp only [hdc, false_and, if_false]

theorem mem_subscribe (c d : Nat) (pattern : ByteSeq) (l : Listener) (s : Subscription Listener) :
    s ∈ ((w.subscribe c pattern l).2.channel d).subscriptions ↔
      s ∈ (w.channel d).subscriptions ∨
        (d = c ∧ c < w.channels.length ∧ s = ⟨(w.channel c).nextId.toNat, pattern, l⟩) := by
  rw [channel_subscribe]
  by_cases h : d = c ∧ c < w.channels.length
  · obtain ⟨rfl, hlt⟩ := h
    simp only [hlt, and_self, if_true, Notifier.subscribe, List.mem_append, List.mem_singleton,
      true_and]
  · rw [if_neg h, ← and_assoc]
    simp only [h, false_and, or_false]

theorem nextId_subscribe (c d : Nat) (pattern : ByteSeq) (l : Listener) :
    ((w.subscribe c pattern l).2.channel d).nextId =
      if d = c ∧ c < w.channels.length then (w.channel c).nextId + 1 else (w.channel d).nextId := by
  rw [channel_subscribe]
  split <;> rfl

theorem mem_unsubscribe (c d id : Nat) (s : Subscription Listener) :
    s ∈ ((w.unsubscribe c id).2.channel d).subscriptions ↔
      s ∈ (w.channel d).subscriptions ∧ (d = c → s.id ≠ id) := by
  rw [channel_unsubscribe]
  by_cases hdc : d = c
  · subst hdc
    simp only [if_true, Notifier.unsubscribe, List.mem_filter, bne_iff_ne, forall_const]
  · simp only [hdc, if_false, false_implies, and_true]

theorem nextId_unsubscribe (c d id : Nat) :
    ((w.unsubscribe c id).2.channel d).nextId = (w.channel d).nextId := by
  rw [channel_unsubscribe]
  split
  · next hdc =>
    subst hdc
    rfl
  · rfl

/-- From one world to another, no counter of subscriptions begins anew. -/
def CountsUp (w w' : World) : Prop := ∀ c, (w.channel c).nextId ≤ (w'.channel c).nextId

theorem countsUp_iff {w w' : World} : w.CountsUp w' ↔
    ∀ c < w.channels.length, (w.channel c).nextId ≤ (w'.channel c).nextId := by
  constructor
  · exact fun h c _ => h c
  · intro h c
    by_cases hlt : c < w.channels.length
    · exact h c hlt
    · rw [w.channel_of_le (Nat.not_lt.mp hlt)]
      exact UInt64.zero_le

instance (w w' : World) : Decidable (w.CountsUp w') := decidable_of_iff _ countsUp_iff.symm

theorem nextId_lt_of_subscribe {w' : World} {c : Nat} {pattern : ByteSeq} {l : Listener}
    (hchannel : ∀ d, w'.channel d = (w.subscribe c pattern l).2.channel d)
    (hcounts : w.CountsUp w') (hlt : c < w.channels.length) :
    (w.channel c).nextId.toNat < (w'.channel c).nextId.toNat := by
  have hnext : (w'.channel c).nextId = (w.channel c).nextId + 1 := by
    rw [hchannel, nextId_subscribe, if_pos ⟨rfl, hlt⟩]
  have hcount := hcounts c
  have hne : (w.channel c).nextId ≠ (w.channel c).nextId + 1 := by simp
  rw [hnext] at hcount ⊢
  exact UInt64.lt_iff_toNat_lt.mp (UInt64.lt_of_le_of_ne hcount hne)

/-- Stopping a watcher gives no number. -/
theorem countsUp_stop (i : Nat) : w.CountsUp (w.stop i) := by
  intro c
  cases hheld : w.held? i with
  | none =>
    rw [stop, hheld]
    exact UInt64.le_refl _
  | some held =>
    obtain ⟨v, subscription⟩ := held
    rw [stop, hheld]
    cases subscription with
    | none => exact UInt64.le_refl _
    | some id =>
      let stopped := w.modifyWatcher i ({ · with active := false, handle := .held none })
      have hsame := stopped.nextId_unsubscribe v.channel c id
      exact UInt64.le_of_eq hsame.symm

/-! ### Numbers -/

/-- The channel that a listener came for. -/
def home? (w : World) : Listener → Option Nat
  | .watcher i => w.watchers[i]?.map (·.channel)
  | .recorder r => w.recorders[r]?.map (·.channel)

def Registered (w : World) (l : Listener) : Prop :=
  ∃ c, ∃ s ∈ (w.channel c).subscriptions, s.listener = l

end World

/-- The number with which the owner of a watcher can remove it. -/
def Handle.number? : Handle → Option Nat
  | held subscription => subscription
  | starting | dropped => none

/-- The owner has stopped the watcher, or has none. -/
def Handle.stopped : Handle → Bool
  | held none | dropped => true
  | held (some _) | starting => false

/-- The number with which the owner of a listener can remove it. -/
def World.number? (w : World) : Listener → Option Nat
  | .watcher i => w.watchers[i]?.bind (·.handle.number?)
  | .recorder r => w.recorders[r]?.bind (·.subscription)

/-- A number belongs to a listener: its owner has it, or a call under way has promised it. -/
def World.Owns (w : World) (promises : List (Listener × Nat)) (l : Listener) (id : Nat) : Prop :=
  w.number? l = some id ∨ (l, id) ∈ promises

/-- On its channel, the number of a listener is that of its subscription and of no other, and will
not be given again. -/
structure Numbered (w : World) (promises : List (Listener × Nat)) : Prop where
  home : ∀ c, ∀ s ∈ (w.channel c).subscriptions, w.home? s.listener = some c
  below : ∀ c, ∀ s ∈ (w.channel c).subscriptions, s.id < (w.channel c).nextId.toNat
  exists_home : ∀ l id, w.Owns promises l id → ∃ c, w.home? l = some c
  spent : ∀ l c id, w.Owns promises l id → w.home? l = some c → c < w.channels.length →
    id < (w.channel c).nextId.toNat
  owner : ∀ l c id, w.Owns promises l id → w.home? l = some c →
    ∀ s ∈ (w.channel c).subscriptions, s.id = id ↔ s.listener = l

namespace Numbered

variable {w w' : World} {promises promises' : List (Listener × Nat)} {l : Listener} {c id : Nat}

theorem home?_of_owns (h : Numbered w promises)
    (hhome : ∀ l d, w.home? l = some d → w'.home? l = some d) (ho : w.Owns promises l id)
    (hc : w'.home? l = some c) : w.home? l = some c := by
  obtain ⟨d, hd⟩ := h.exists_home l id ho
  have heq := (hhome l d hd).symm.trans hc
  exact heq ▸ hd

theorem not_registered (h : Numbered w promises) (hl : w.home? l = none) : ¬w.Registered l := by
  rintro ⟨c, s, hs, rfl⟩
  have hsome := h.home c s hs
  rw [hl] at hsome
  cases hsome

/-- Listeners may come that are not registered, and numbers may be forgotten. -/
theorem of_le (h : Numbered w promises) (hchannel : ∀ d, w'.channel d = w.channel d)
    (hlength : w'.channels.length = w.channels.length)
    (hhome : ∀ l d, w.home? l = some d → w'.home? l = some d)
    (howns : ∀ l id, w'.Owns promises' l id → w.Owns promises l id) : Numbered w' promises' := by
  have hback : ∀ l d id, w'.Owns promises' l id → w'.home? l = some d → w.home? l = some d :=
    fun l d id ho hd => h.home?_of_owns hhome (howns l id ho) hd
  constructor
  · intro d s hs
    rw [hchannel] at hs
    exact hhome _ _ (h.home d s hs)
  · intro d s hs
    rw [hchannel] at hs ⊢
    exact h.below d s hs
  · intro l id ho
    obtain ⟨d, hd⟩ := h.exists_home l id (howns l id ho)
    exact ⟨d, hhome l d hd⟩
  · intro l d id ho hd hlt
    rw [hchannel]
    exact h.spent l d id (howns l id ho) (hback l d id ho hd) (hlength ▸ hlt)
  · intro l d id ho hd s hs
    rw [hchannel] at hs
    exact h.owner l d id (howns l id ho) (hback l d id ho hd) s hs

theorem subscribe (h : Numbered w promises) (pattern : ByteSeq) (hnew : w.home? l = none)
    (hcounts : w.CountsUp w')
    (hchannel : ∀ d, w'.channel d = (w.subscribe c pattern l).2.channel d)
    (hlength : w'.channels.length = w.channels.length)
    (hhome : ∀ l d, w.home? l = some d → w'.home? l = some d) (hl : w'.home? l = some c)
    (howns : ∀ l' id, w'.Owns promises' l' id →
      w.Owns promises l' id ∨ (l' = l ∧ id = (w.channel c).nextId.toNat)) :
    Numbered w' promises' := by
  have hmem : ∀ d s, s ∈ (w'.channel d).subscriptions ↔ s ∈ (w.channel d).subscriptions ∨
      (d = c ∧ c < w.channels.length ∧ s = ⟨(w.channel c).nextId.toNat, pattern, l⟩) := by
    intro d s
    rw [hchannel, w.mem_subscribe]
  have hle : ∀ d, (w.channel d).nextId.toNat ≤ (w'.channel d).nextId.toNat :=
    fun d => UInt64.le_iff_toNat_le.mp (hcounts d)
  have hfresh := w.nextId_lt_of_subscribe hchannel hcounts
  -- an old number belongs to an old listener, whose channel has not changed
  have hold : ∀ l' d id, w.Owns promises l' id → w'.home? l' = some d →
      w.home? l' = some d ∧ l' ≠ l := by
    intro l' d id ho hd
    have hd' := h.home?_of_owns hhome ho hd
    refine ⟨hd', ?_⟩
    rintro rfl
    rw [hnew] at hd'
    cases hd'
  constructor
  · intro d s hs
    rcases (hmem d s).mp hs with hs | ⟨rfl, -, rfl⟩
    · exact hhome _ _ (h.home d s hs)
    · exact hl
  · intro d s hs
    rcases (hmem d s).mp hs with hs | ⟨rfl, hlt, rfl⟩
    · exact Nat.lt_of_lt_of_le (h.below d s hs) (hle d)
    · exact hfresh hlt
  · intro l' id ho
    rcases howns l' id ho with ho | ⟨rfl, -⟩
    · obtain ⟨d, hd⟩ := h.exists_home l' id ho
      exact ⟨d, hhome l' d hd⟩
    · exact ⟨c, hl⟩
  · intro l' d id ho hd hlt
    rw [hlength] at hlt
    rcases howns l' id ho with ho | ⟨rfl, rfl⟩
    · obtain ⟨hd', -⟩ := hold l' d id ho hd
      exact Nat.lt_of_lt_of_le (h.spent l' d id ho hd' hlt) (hle d)
    · cases hl.symm.trans hd
      exact hfresh hlt
  · intro l' d id ho hd s hs
    rcases howns l' id ho with ho | ⟨rfl, rfl⟩
    · obtain ⟨hd', hne⟩ := hold l' d id ho hd
      rcases (hmem d s).mp hs with hs | ⟨rfl, hlt, rfl⟩
      · exact h.owner l' d id ho hd' s hs
      · have hspent := h.spent l' d id ho hd' hlt
        exact iff_of_false (Nat.ne_of_gt hspent) (Ne.symm hne)
    · cases hl.symm.trans hd
      rcases (hmem c s).mp hs with hs | ⟨-, -, rfl⟩
      · have hne : s.listener ≠ l' := fun hl => h.not_registered hnew ⟨c, s, hs, hl⟩
        exact iff_of_false (Nat.ne_of_lt (h.below c s hs)) hne
      · exact iff_of_true rfl rfl

theorem unsubscribe (h : Numbered w promises) (hchannel : ∀ d, w'.channel d =
      (w.unsubscribe c id).2.channel d) (hlength : w'.channels.length = w.channels.length)
    (hhome : ∀ l, w'.home? l = w.home? l)
    (howns : ∀ l id, w'.Owns promises' l id → w.Owns promises l id) : Numbered w' promises' := by
  have hmem : ∀ d s, s ∈ (w'.channel d).subscriptions → s ∈ (w.channel d).subscriptions := by
    intro d s hs
    rw [hchannel, w.mem_unsubscribe] at hs
    exact hs.1
  have hnext : ∀ d, (w'.channel d).nextId = (w.channel d).nextId := by
    intro d
    rw [hchannel, w.nextId_unsubscribe]
  constructor
  · intro d s hs
    rw [hhome]
    exact h.home d s (hmem d s hs)
  · intro d s hs
    rw [hnext]
    exact h.below d s (hmem d s hs)
  · intro l id ho
    rw [hhome]
    exact h.exists_home l id (howns l id ho)
  · intro l d id ho hd hlt
    rw [hhome] at hd
    rw [hnext]
    exact h.spent l d id (howns l id ho) hd (hlength ▸ hlt)
  · intro l d id ho hd s hs
    rw [hhome] at hd
    exact h.owner l d id (howns l id ho) hd s (hmem d s hs)

/-- The owner of a number removes its own listener and no other. -/
theorem registered_unsubscribe (h : Numbered w promises) (hl : w.home? l = some c)
    (ho : w.Owns promises l id) (l' : Listener) :
    (w.unsubscribe c id).2.Registered l' ↔ w.Registered l' ∧ l' ≠ l := by
  constructor
  · rintro ⟨d, s, hs, rfl⟩
    rw [w.mem_unsubscribe] at hs
    refine ⟨⟨d, s, hs.1, rfl⟩, ?_⟩
    rintro rfl
    cases (h.home d s hs.1).symm.trans hl
    exact hs.2 rfl ((h.owner _ c id ho hl s hs.1).mpr rfl)
  · rintro ⟨⟨d, s, hs, rfl⟩, hne⟩
    have hkept : d = c → s.id ≠ id := by
      intro hdc hid
      rw [hdc] at hs
      exact hne ((h.owner l c id ho hl s hs).mp hid)
    exact ⟨d, s, (w.mem_unsubscribe c d id s).mpr ⟨hs, hkept⟩, rfl⟩

end Numbered

namespace World

variable {w w' : World}

theorem registered_subscribe (w : World) (c : Nat) (pattern : ByteSeq) (l l' : Listener) :
    (w.subscribe c pattern l).2.Registered l' ↔
      w.Registered l' ∨ (l' = l ∧ c < w.channels.length) := by
  constructor
  · rintro ⟨d, s, hs, rfl⟩
    rcases (w.mem_subscribe c d pattern l s).mp hs with hs | ⟨-, hlt, rfl⟩
    · exact .inl ⟨d, s, hs, rfl⟩
    · exact .inr ⟨rfl, hlt⟩
  · rintro (⟨d, s, hs, rfl⟩ | ⟨rfl, hlt⟩)
    · exact ⟨d, s, (w.mem_subscribe c d pattern l s).mpr (.inl hs), rfl⟩
    · exact ⟨c, _, (w.mem_subscribe c c pattern l' _).mpr (.inr ⟨rfl, hlt, rfl⟩), rfl⟩

theorem registered_congr (hchannel : ∀ d, w'.channel d = w.channel d) (l : Listener) :
    w'.Registered l ↔ w.Registered l := by
  simp only [Registered, hchannel]

/-! ### Newcomers -/

theorem getElem?_concat_eq_some_iff {α : Type} {xs : List α} {x y : α} {i : Nat} :
    (xs ++ [x])[i]? = some y ↔ xs[i]? = some y ∨ (i = xs.length ∧ y = x) := by
  rw [List.getElem?_append]
  split
  · next hlt => simp only [Nat.ne_of_lt hlt, false_and, or_false]
  · next hge =>
    rw [List.getElem?_eq_none (Nat.not_lt.mp hge), List.getElem?_singleton]
    by_cases hi : i = xs.length
    · simp only [hi, Nat.sub_self, if_true, Option.some.injEq, reduceCtorEq, false_or, true_and,
        eq_comm]
    · have hpos : i - xs.length ≠ 0 := by omega
      simp only [hi, hpos, if_false, reduceCtorEq, false_or, false_and]

theorem map_getElem?_modify {α β : Type} {g : α → β} {f : α → α} (hf : ∀ x, g (f x) = g x)
    {xs : List α} (i j : Nat) : (xs.modify i f)[j]?.map g = xs[j]?.map g := by
  rw [List.getElem?_modify]
  cases xs[j]? with
  | none => split <;> rfl
  | some x =>
    split
    · exact congrArg some (hf x)
    · rfl

theorem getElem?_modify_eq_some_iff {α : Type} {f : α → α} {xs : List α} {y : α} {i j : Nat} :
    (xs.modify i f)[j]? = some y ↔
      (j = i ∧ ∃ x, xs[j]? = some x ∧ f x = y) ∨ (j ≠ i ∧ xs[j]? = some y) := by
  rw [List.getElem?_modify]
  by_cases hij : j = i
  · subst hij
    simp only [if_true, true_and, ne_eq, not_true_eq_false, false_and, or_false]
    exact Option.map_eq_some_iff
  · have hji : i ≠ j := Ne.symm hij
    simp only [hji, hij, if_false, false_and, ne_eq, not_false_eq_true, true_and, false_or,
      id_map']

theorem home?_watcher_eq_some {i c : Nat} :
    w.home? (.watcher i) = some c ↔ ∃ v, w.watchers[i]? = some v ∧ v.channel = c :=
  Option.map_eq_some_iff

theorem home?_recorder_eq_some {r c : Nat} :
    w.home? (.recorder r) = some c ↔ ∃ x, w.recorders[r]? = some x ∧ x.channel = c :=
  Option.map_eq_some_iff

theorem number?_watcher_eq_some {i id : Nat} : w.number? (.watcher i) = some id ↔
    ∃ v, w.watchers[i]? = some v ∧ v.handle.number? = some id := Option.bind_eq_some_iff

theorem number?_recorder_eq_some {r id : Nat} : w.number? (.recorder r) = some id ↔
    ∃ x, w.recorders[r]? = some x ∧ x.subscription = some id := Option.bind_eq_some_iff

section
variable {promises : List (Listener × Nat)} {l l' : Listener} {c id id' : Nat}

theorem owns_cons_iff : w.Owns ((l, id) :: promises) l' id' ↔
    w.Owns promises l' id' ∨ (l' = l ∧ id' = id) := by
  rw [Owns, Owns, List.mem_cons, Prod.mk.injEq, or_assoc, or_comm (a := l' = l ∧ id' = id)]

theorem home?_newWatcher (w : World) : w.home? (.watcher w.watchers.length) = none := by
  rw [home?, List.getElem?_eq_none (Nat.le_refl _)]
  rfl

theorem home?_newRecorder (w : World) : w.home? (.recorder w.recorders.length) = none := by
  rw [home?, List.getElem?_eq_none (Nat.le_refl _)]
  rfl

theorem home?_addWatcher {v : Watcher} : (w.addWatcher v).home? l = some c ↔
    w.home? l = some c ∨ (l = .watcher w.watchers.length ∧ c = v.channel) := by
  cases l with
  | recorder r =>
    have hne : Listener.recorder r ≠ .watcher w.watchers.length := nofun
    simp only [hne, false_and, or_false]
    rfl
  | watcher i =>
    simp only [home?_watcher_eq_some, addWatcher, getElem?_concat_eq_some_iff,
      Listener.watcher.injEq]
    constructor
    · rintro ⟨u, hu | ⟨hi, rfl⟩, rfl⟩
      · exact .inl ⟨u, hu, rfl⟩
      · exact .inr ⟨hi, rfl⟩
    · rintro (⟨u, hu, rfl⟩ | ⟨hi, rfl⟩)
      · exact ⟨u, .inl hu, rfl⟩
      · exact ⟨v, .inr ⟨hi, rfl⟩, rfl⟩

theorem home?_addRecorder {x : Recorder} : (w.addRecorder x).home? l = some c ↔
    w.home? l = some c ∨ (l = .recorder w.recorders.length ∧ c = x.channel) := by
  cases l with
  | watcher i =>
    have hne : Listener.watcher i ≠ .recorder w.recorders.length := nofun
    simp only [hne, false_and, or_false]
    rfl
  | recorder r =>
    simp only [home?_recorder_eq_some, addRecorder, getElem?_concat_eq_some_iff,
      Listener.recorder.injEq]
    constructor
    · rintro ⟨u, hu | ⟨hi, rfl⟩, rfl⟩
      · exact .inl ⟨u, hu, rfl⟩
      · exact .inr ⟨hi, rfl⟩
    · rintro (⟨u, hu, rfl⟩ | ⟨hi, rfl⟩)
      · exact ⟨u, .inl hu, rfl⟩
      · exact ⟨x, .inr ⟨hi, rfl⟩, rfl⟩

theorem owns_of_addWatcher {v : Watcher} (hv : v.handle.number? = none)
    (h : (w.addWatcher v).Owns promises l id) : w.Owns promises l id := by
  apply h.imp_left
  intro hn
  cases l with
  | recorder r => exact hn
  | watcher i =>
    obtain ⟨u, hu, hid⟩ := number?_watcher_eq_some.mp hn
    rcases getElem?_concat_eq_some_iff.mp hu with hu | ⟨-, rfl⟩
    · exact number?_watcher_eq_some.mpr ⟨u, hu, hid⟩
    · rw [hv] at hid
      cases hid

theorem owns_of_addRecorder {x : Recorder} (hx : x.subscription = none)
    (h : (w.addRecorder x).Owns promises l id) : w.Owns promises l id := by
  apply h.imp_left
  intro hn
  cases l with
  | watcher i => exact hn
  | recorder r =>
    obtain ⟨u, hu, hid⟩ := number?_recorder_eq_some.mp hn
    rcases getElem?_concat_eq_some_iff.mp hu with hu | ⟨-, rfl⟩
    · exact number?_recorder_eq_some.mpr ⟨u, hu, hid⟩
    · rw [hx] at hid
      cases hid

theorem home?_modifyWatcher {f : Watcher → Watcher} (hf : ∀ v, (f v).channel = v.channel)
    (i : Nat) (l : Listener) : (w.modifyWatcher i f).home? l = w.home? l := by
  cases l with
  | recorder r => rfl
  | watcher j => exact map_getElem?_modify hf i j

theorem home?_modifyRecorder {f : Recorder → Recorder} (hf : ∀ x, (f x).channel = x.channel)
    (r : Nat) (l : Listener) : (w.modifyRecorder r f).home? l = w.home? l := by
  cases l with
  | watcher i => rfl
  | recorder j => exact map_getElem?_modify hf r j

end
end World

/-! ### The registry -/

/-- What registrations are about; the rest of a world does not matter to them. -/
structure Registry where
  channels : List (Notifier Listener)
  watchers : List Watcher
  /-- The channel of each recorder, and the number that its owner has. -/
  recorders : List (Nat × Option Nat)

def World.registry (w : World) : Registry :=
  ⟨w.channels, w.watchers, w.recorders.map fun r => (r.channel, r.subscription)⟩

namespace World

variable {w w' : World}

theorem channel_congr (h : w'.channels = w.channels) (d : Nat) : w'.channel d = w.channel d := by
  rw [channel, channel, h]

theorem getElem?_registry_recorders (w : World) (r : Nat) : w.registry.recorders[r]? =
    w.recorders[r]?.map fun x => (x.channel, x.subscription) := List.getElem?_map

theorem home?_congr (h : w'.registry = w.registry) (l : Listener) : w'.home? l = w.home? l := by
  have hhome : ∀ (w : World) (r : Nat),
      w.home? (.recorder r) = w.registry.recorders[r]?.map (·.1) := by
    intro w r
    rw [getElem?_registry_recorders, Option.map_map]
    rfl
  obtain ⟨-, hwatchers, -⟩ := Registry.mk.inj h
  cases l with
  | watcher i => rw [home?, home?, hwatchers]
  | recorder r => rw [hhome, hhome, h]

theorem number?_congr (h : w'.registry = w.registry) (l : Listener) :
    w'.number? l = w.number? l := by
  have hnumber : ∀ (w : World) (r : Nat),
      w.number? (.recorder r) = w.registry.recorders[r]?.bind (·.2) := by
    intro w r
    rw [getElem?_registry_recorders, Option.bind_map]
    rfl
  obtain ⟨-, hwatchers, -⟩ := Registry.mk.inj h
  cases l with
  | watcher i => rw [number?, number?, hwatchers]
  | recorder r => rw [hnumber, hnumber, h]

end World

end StoreClient.Tasks

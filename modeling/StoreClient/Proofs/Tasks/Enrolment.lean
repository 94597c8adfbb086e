import StoreClient.Proofs.Tasks.Registrations

/-! # Watchers at work

A watcher is active from the start on until its owner stops it for the first time, and that is just
as long as it is registered on its channel (`Enrolled`).  What the owners of watchers and recorders
do keeps this so: they remove their own listeners only, and a watcher that is stopped once more is
already at rest (`Enrolled.stop_eq_self`). -/

namespace StoreClient.Tasks

/-- What can be said of registrations between any two steps. -/
structure Enrolled (w : World) (promises : List (Listener × Nat)) : Prop where
  numbered : Numbered w promises
  registered : ∀ i v, w.watchers[i]? = some v → v.channel < w.channels.length →
    (v.active = true ↔ w.Registered (.watcher i))
  active : ∀ (i : Nat) (v : Watcher), w.watchers[i]? = some v → v.active = !v.handle.stopped
  starting : ∀ i id, (.watcher i, id) ∈ promises →
    ∃ v, w.watchers[i]? = some v ∧ v.handle = .starting
  nodup : (promises.map (·.1)).Nodup

namespace Enrolled

variable {w w' : World} {promises promises' : List (Listener × Nat)} {c id : Nat}

theorem of_watchers (h : Enrolled w promises) (hnumbered : Numbered w' promises')
    (hwatchers : w'.watchers = w.watchers) (hlength : w'.channels.length = w.channels.length)
    (hregistered : ∀ i, w'.Registered (.watcher i) ↔ w.Registered (.watcher i))
    (hpromises : ∀ i id, (.watcher i, id) ∈ promises' → (.watcher i, id) ∈ promises)
    (hnodup : (promises'.map (·.1)).Nodup) : Enrolled w' promises' where
  numbered := hnumbered
  registered i v hv hlt := by
    rw [hwatchers] at hv
    rw [hlength] at hlt
    rw [hregistered]
    exact h.registered i v hv hlt
  active i v hv := h.active i v (hwatchers ▸ hv)
  starting i id hi := by
    rw [hwatchers]
    exact h.starting i id (hpromises i id hi)
  nodup := hnodup

/-- Nothing about registrations changes, but promises may be broken. -/
theorem still (h : Enrolled w promises) (hr : w'.registry = w.registry)
    (hp : promises'.Sublist promises) : Enrolled w' promises' := by
  obtain ⟨hchannels, hwatchers, -⟩ := Registry.mk.inj hr
  have hchannel := World.channel_congr hchannels
  have hlength : w'.channels.length = w.channels.length := congrArg List.length hchannels
  have howns : ∀ l id, w'.Owns promises' l id → w.Owns promises l id := by
    rintro l id (hn | hmem)
    · rw [World.number?_congr hr] at hn
      exact .inl hn
    · exact .inr (hp.subset hmem)
  have hhome : ∀ l d, w.home? l = some d → w'.home? l = some d := by
    intro l d hd
    rw [World.home?_congr hr, hd]
  apply h.of_watchers (h.numbered.of_le hchannel hlength hhome howns) hwatchers hlength
  · intro i
    exact World.registered_congr hchannel _
  · intro i id hi
    exact hp.subset hi
  · exact h.nodup.sublist (hp.map _)

theorem addWatcher (h : Enrolled w promises) {v : Watcher} (hactive : v.active = false)
    (hhandle : v.handle = .dropped) : Enrolled (w.addWatcher v) promises := by
  have hhome : ∀ l d, w.home? l = some d → (w.addWatcher v).home? l = some d := by
    intro l d hd
    exact World.home?_addWatcher.mpr (.inl hd)
  have hnumber : v.handle.number? = none := by
    rw [hhandle]
    rfl
  have howns : ∀ l id, (w.addWatcher v).Owns promises l id → w.Owns promises l id := by
    intro l id
    exact World.owns_of_addWatcher hnumber
  constructor
  · exact h.numbered.of_le (fun _ => rfl) rfl hhome howns
  · intro i u hu hlt
    have hsame : (w.addWatcher v).Registered (.watcher i) ↔ w.Registered (.watcher i) :=
      World.registered_congr (fun _ => rfl) _
    rw [hsame]
    rcases World.getElem?_concat_eq_some_iff.mp hu with hu | ⟨rfl, rfl⟩
    · exact h.registered i u hu hlt
    · have hnot := h.numbered.not_registered w.home?_newWatcher
      rw [hactive]
      exact iff_of_false Bool.false_ne_true hnot
  · intro i u hu
    rcases World.getElem?_concat_eq_some_iff.mp hu with hu | ⟨rfl, rfl⟩
    · exact h.active i u hu
    · rw [hactive, hhandle]
      rfl
  · intro i id hi
    obtain ⟨u, hu, hstarting⟩ := h.starting i id hi
    exact ⟨u, World.getElem?_concat_eq_some_iff.mpr (.inl hu), hstarting⟩
  · exact h.nodup

theorem nodup_cons (h : Enrolled w promises) {l : Listener} (hl : w.home? l = none) (id : Nat) :
    (((l, id) :: promises).map (·.1)).Nodup := by
  rw [List.map_cons, List.nodup_cons]
  refine ⟨?_, h.nodup⟩
  intro hmem
  obtain ⟨⟨l', id'⟩, hp, rfl⟩ := List.mem_map.mp hmem
  obtain ⟨c, hc⟩ := h.numbered.exists_home l' id' (.inr hp)
  rw [hl] at hc
  cases hc

theorem start (h : Enrolled w promises) {v : Watcher} (hactive : v.active = true)
    (hhandle : v.handle = .starting) (hcounts : w.CountsUp
      ((w.addWatcher v).subscribe v.channel v.pattern (.watcher w.watchers.length)).2) :
    Enrolled ((w.addWatcher v).subscribe v.channel v.pattern (.watcher w.watchers.length)).2
      ((.watcher w.watchers.length, (w.channel v.channel).nextId.toNat) :: promises) := by
  have hhome : ∀ l d, w.home? l = some d → (w.addWatcher v).home? l = some d := by
    intro l d hd
    exact World.home?_addWatcher.mpr (.inl hd)
  have hself : (w.addWatcher v).home? (.watcher w.watchers.length) = some v.channel :=
    World.home?_addWatcher.mpr (.inr ⟨rfl, rfl⟩)
  have hnumber : v.handle.number? = none := by
    rw [hhandle]
    rfl
  have howns : ∀ l id, World.Owns (w.addWatcher v)
      ((.watcher w.watchers.length, (w.channel v.channel).nextId.toNat) :: promises) l id →
      w.Owns promises l id ∨
        (l = .watcher w.watchers.length ∧ id = (w.channel v.channel).nextId.toNat) := by
    intro l id ho
    exact (World.owns_cons_iff.mp ho).imp_left (World.owns_of_addWatcher hnumber)
  constructor
  · refine h.numbered.subscribe v.pattern w.home?_newWatcher hcounts ?_ ?_ hhome hself howns
    · intro d
      rfl
    · exact World.length_channels_subscribe ..
  · intro i u hu hlt
    rw [World.length_channels_subscribe] at hlt
    have hsame : (w.addWatcher v).Registered (.watcher i) ↔ w.Registered (.watcher i) :=
      World.registered_congr (fun _ => rfl) _
    rw [World.registered_subscribe, hsame, Listener.watcher.injEq]
    rcases World.getElem?_concat_eq_some_iff.mp hu with hu | ⟨rfl, rfl⟩
    · have hold : i ≠ w.watchers.length := by
        have hi := (List.getElem?_eq_some_iff.mp hu).1
        omega
      simp only [hold, false_and, or_false]
      exact h.registered i u hu hlt
    · rw [hactive]
      exact iff_of_true rfl (.inr ⟨rfl, hlt⟩)
  · intro i u hu
    rcases World.getElem?_concat_eq_some_iff.mp hu with hu | ⟨rfl, rfl⟩
    · exact h.active i u hu
    · rw [hactive, hhandle]
      rfl
  · intro i id hi
    rcases List.mem_cons.mp hi with heq | hi
    · cases heq
      exact ⟨v, World.getElem?_concat_eq_some_iff.mpr (.inr ⟨rfl, rfl⟩), hhandle⟩
    · obtain ⟨u, hu, hstarting⟩ := h.starting i id hi
      exact ⟨u, World.getElem?_concat_eq_some_iff.mpr (.inl hu), hstarting⟩
  · exact h.nodup_cons w.home?_newWatcher _

/-- The watcher stays at work, or at rest, in other hands. -/
theorem setHandle (h : Enrolled w promises) {i : Nat} {v : Watcher} {handle : Handle}
    (hv : w.watchers[i]? = some v) (hp : promises'.Sublist promises)
    (hfree : ∀ id, (.watcher i, id) ∉ promises') (hstopped : handle.stopped = v.handle.stopped)
    (hnumber : ∀ id, handle.number? = some id → w.Owns promises (.watcher i) id) :
    Enrolled (w.modifyWatcher i ({ · with handle := handle })) promises' := by
  have hhome : ∀ l, (w.modifyWatcher i ({ · with handle := handle })).home? l = w.home? l := by
    apply World.home?_modifyWatcher
    intro v
    rfl
  constructor
  · refine h.numbered.of_le (fun _ => rfl) rfl ?_ ?_
    · intro l d hd
      rw [hhome, hd]
    · rintro l id (hn | hmem)
      · cases l with
        | recorder r => exact .inl hn
        | watcher j =>
          obtain ⟨u, hu, hid⟩ := World.number?_watcher_eq_some.mp hn
          rcases World.getElem?_modify_eq_some_iff.mp hu with ⟨rfl, u', hu', rfl⟩ | ⟨-, hu⟩
          · exact hnumber id hid
          · exact .inl (World.number?_watcher_eq_some.mpr ⟨u, hu, hid⟩)
      · exact .inr (hp.subset hmem)
  · intro j u hu hlt
    have hsame : (w.modifyWatcher i ({ · with handle := handle })).Registered (.watcher j) ↔
        w.Registered (.watcher j) := World.registered_congr (fun _ => rfl) _
    rw [hsame]
    rcases World.getElem?_modify_eq_some_iff.mp hu with ⟨rfl, u', hu', rfl⟩ | ⟨-, hu⟩
    · exact h.registered j u' hu' hlt
    · exact h.registered j u hu hlt
  · intro j u hu
    rcases World.getElem?_modify_eq_some_iff.mp hu with ⟨rfl, u', hu', rfl⟩ | ⟨-, hu⟩
    · cases hv.symm.trans hu'
      exact (h.active j v hv).trans (congrArg not hstopped.symm)
    · exact h.active j u hu
  · intro j id hj
    obtain ⟨u, hu, hu'⟩ := h.starting j id (hp.subset hj)
    have hne : j ≠ i := by
      rintro rfl
      exact hfree id hj
    exact ⟨u, World.getElem?_modify_eq_some_iff.mpr (.inr ⟨hne, hu⟩), hu'⟩
  · exact h.nodup.sublist (hp.map _)

theorem started {i : Nat} (h : Enrolled w ((.watcher i, id) :: promises)) :
    Enrolled (w.modifyWatcher i ({ · with handle := .held (some id) })) promises := by
  obtain ⟨v, hv, hstarting⟩ := h.starting i id List.mem_cons_self
  refine h.setHandle hv (List.sublist_cons_self _ _) ?_ ?_ ?_
  · intro id' hmem
    exact (List.nodup_cons.mp h.nodup).1 (List.mem_map.mpr ⟨_, hmem, rfl⟩)
  · rw [hstarting]
    rfl
  · rintro _ ⟨⟩
    exact .inr List.mem_cons_self

theorem retire {i : Nat} {v : Watcher} (h : Enrolled w promises) (hv : w.watchers[i]? = some v)
    (hid : v.handle = .held (some id)) : Enrolled ((w.modifyWatcher i
      ({ · with active := false, handle := .held none })).unsubscribe v.channel id).2 promises := by
  have hchannel : ∀ d, ((w.modifyWatcher i
      ({ · with active := false, handle := .held none })).unsubscribe v.channel id).2.channel d =
      (w.unsubscribe v.channel id).2.channel d := fun _ => rfl
  have hhome : ∀ l, (w.modifyWatcher i ({ · with active := false, handle := .held none })).home? l =
      w.home? l := by
    apply World.home?_modifyWatcher
    intro v
    rfl
  have hself : w.home? (.watcher i) = some v.channel := World.home?_watcher_eq_some.mpr ⟨v, hv, rfl⟩
  have howner : w.Owns promises (.watcher i) id :=
    .inl (World.number?_watcher_eq_some.mpr ⟨v, hv, by rw [hid]; rfl⟩)
  have hregistered : ∀ l, ((w.modifyWatcher i
      ({ · with active := false, handle := .held none })).unsubscribe v.channel id).2.Registered l ↔
      w.Registered l ∧ l ≠ .watcher i := by
    intro l
    rw [World.registered_congr hchannel]
    exact h.numbered.registered_unsubscribe hself howner l
  constructor
  · refine h.numbered.unsubscribe hchannel (World.length_channels_unsubscribe ..) hhome ?_
    rintro l id' (hn | hmem)
    · cases l with
      | recorder r => exact .inl hn
      | watcher j =>
        obtain ⟨u, hu, hid'⟩ := World.number?_watcher_eq_some.mp hn
        rcases World.getElem?_modify_eq_some_iff.mp hu with ⟨rfl, u', hu', rfl⟩ | ⟨-, hu⟩
        · cases hid'
        · exact .inl (World.number?_watcher_eq_some.mpr ⟨u, hu, hid'⟩)
    · exact .inr hmem
  · intro j u hu hlt
    rw [World.length_channels_unsubscribe] at hlt
    rw [hregistered, ne_eq, Listener.watcher.injEq]
    rcases World.getElem?_modify_eq_some_iff.mp hu with ⟨rfl, u', hu', rfl⟩ | ⟨hne, hu⟩
    · simp only [Bool.false_eq_true, not_true_eq_false, and_false]
    · rw [h.registered j u hu hlt, and_iff_left hne]
  · intro j u hu
    rcases World.getElem?_modify_eq_some_iff.mp hu with ⟨rfl, u', hu', rfl⟩ | ⟨hne, hu⟩
    · rfl
    · exact h.active j u hu
  · intro j id' hj
    obtain ⟨u, hu, hu'⟩ := h.starting j id' hj
    have hne : j ≠ i := by
      rintro rfl
      cases hv.symm.trans hu
      rw [hid] at hu'
      cases hu'
    exact ⟨u, World.getElem?_modify_eq_some_iff.mpr (.inr ⟨hne, hu⟩), hu'⟩
  · exact h.nodup

end Enrolled

/-! ### Stopping -/

namespace World

variable {w w' : World} {promises : List (Listener × Nat)} {i : Nat} {v : Watcher}

theorem held?_eq_some {subscription : Option Nat} : w.held? i = some (v, subscription) ↔
    w.watchers[i]? = some v ∧ v.handle = .held subscription := by
  constructor
  · intro h
    unfold held? at h
    split at h
    · next u hu =>
      split at h
      · next s hh =>
        cases h
        exact ⟨hu, hh⟩
      · cases h
    · cases h
  · rintro ⟨hv, hh⟩
    rw [held?, hv]
    simp only [hh]

theorem handle_ne_dropped {held : Watcher × Option Nat} (h : w.held? i = some held)
    (hv : w.watchers[i]? = some v) : v.handle ≠ .dropped := by
  obtain ⟨hu, hhandle⟩ := held?_eq_some.mp (show w.held? i = some (held.1, held.2) from h)
  cases hv.symm.trans hu
  rw [hhandle]
  exact nofun

theorem watchers_stop {held : Watcher × Option Nat} (h : w.held? i = some held) :
    (w.stop i).watchers =
      w.watchers.modify i ({ · with active := false, handle := .held none }) := by
  obtain ⟨v, subscription⟩ := held
  rw [stop, h]
  cases subscription with
  | none => rfl
  | some id => rfl

theorem length_watchers_stop (w : World) (i : Nat) :
    (w.stop i).watchers.length = w.watchers.length := by
  cases hheld : w.held? i with
  | none => rw [stop, hheld]
  | some held => rw [watchers_stop hheld, List.length_modify]

theorem exists_of_stop {held : Watcher × Option Nat} (h : w.held? i = some held) :
    ∃ v, (w.stop i).watchers[i]? = some v ∧ v.active = false ∧ v.handle = .held none := by
  have hv := (held?_eq_some.mp (show w.held? i = some (held.1, held.2) from h)).1
  rw [watchers_stop h]
  exact ⟨_, getElem?_modify_eq_some_iff.mpr (.inl ⟨rfl, held.1, hv, rfl⟩), rfl, rfl⟩

theorem modifyWatcher_eq_self {f : Watcher → Watcher} (hv : w.watchers[i]? = some v)
    (hf : f v = v) : w.modifyWatcher i f = w := by
  have hmodify : w.watchers.modify i f = w.watchers := by
    apply List.ext_getElem?
    intro j
    rw [List.getElem?_modify]
    split
    · next hij =>
      subst hij
      rw [hv]
      exact congrArg some hf
    · exact id_map' _
  rw [modifyWatcher, hmodify]

end World

namespace Enrolled

variable {w w' : World} {promises promises' : List (Listener × Nat)} {c id i : Nat}

/-- Stopping once more changes nothing. -/
theorem stop_eq_self (h : Enrolled w promises) {v : Watcher} (hheld : w.held? i = some (v, none)) :
    w.stop i = w := by
  obtain ⟨hv, hhandle⟩ := World.held?_eq_some.mp hheld
  have hactive := h.active i v hv
  rw [hhandle] at hactive
  rw [World.stop, hheld]
  apply World.modifyWatcher_eq_self hv
  cases v with
  | mk task channel executor pattern active handle =>
    cases hhandle
    cases hactive
    rfl

theorem stop (h : Enrolled w promises) (i : Nat) : Enrolled (w.stop i) promises := by
  cases hheld : w.held? i with
  | none =>
    rw [World.stop, hheld]
    exact h
  | some held =>
    obtain ⟨v, subscription⟩ := held
    cases subscription with
    | none =>
      rw [h.stop_eq_self hheld]
      exact h
    | some id =>
      obtain ⟨hv, hhandle⟩ := World.held?_eq_some.mp hheld
      rw [World.stop, hheld]
      exact (h.retire hv hhandle).still rfl (List.Sublist.refl _)

theorem letGo (h : Enrolled w promises) {v : Watcher} (hv : w.watchers[i]? = some v)
    (hhandle : v.handle = .held none) :
    Enrolled (w.modifyWatcher i ({ · with handle := .dropped })) promises := by
  refine h.setHandle hv (List.Sublist.refl _) ?_ ?_ nofun
  · intro id hmem
    obtain ⟨u, hu, hu'⟩ := h.starting i id hmem
    cases hv.symm.trans hu
    rw [hhandle] at hu'
    cases hu'
  · rw [hhandle]
    rfl

theorem drop (h : Enrolled w promises) {held : Watcher × Option Nat}
    (hheld : w.held? i = some held) :
    Enrolled ((w.stop i).modifyWatcher i ({ · with handle := .dropped })) promises := by
  obtain ⟨v, hv, -, hhandle⟩ := World.exists_of_stop hheld
  exact (h.stop i).letGo hv hhandle

/-! ### Recorders -/

theorem addRecorder (h : Enrolled w promises) {x : Recorder} (hx : x.subscription = none) :
    Enrolled (w.addRecorder x) promises := by
  have hhome : ∀ l d, w.home? l = some d → (w.addRecorder x).home? l = some d := by
    intro l d hd
    exact World.home?_addRecorder.mpr (.inl hd)
  have howns : ∀ l id, (w.addRecorder x).Owns promises l id → w.Owns promises l id := by
    intro l id
    exact World.owns_of_addRecorder hx
  have hnumbered : Numbered (w.addRecorder x) promises :=
    h.numbered.of_le (fun _ => rfl) rfl hhome howns
  refine h.of_watchers hnumbered rfl rfl ?_ (fun _ _ hi => hi) h.nodup
  intro i
  exact World.registered_congr (fun _ => rfl) _

theorem subscribe (h : Enrolled w promises) {x : Recorder} (hx : x.subscription = none)
    (pattern : ByteSeq) (hcounts : w.CountsUp
      ((w.addRecorder x).subscribe x.channel pattern (.recorder w.recorders.length)).2) :
    Enrolled ((w.addRecorder x).subscribe x.channel pattern (.recorder w.recorders.length)).2
      ((.recorder w.recorders.length, (w.channel x.channel).nextId.toNat) :: promises) := by
  have hhome : ∀ l d, w.home? l = some d → (w.addRecorder x).home? l = some d := by
    intro l d hd
    exact World.home?_addRecorder.mpr (.inl hd)
  have hself : (w.addRecorder x).home? (.recorder w.recorders.length) = some x.channel :=
    World.home?_addRecorder.mpr (.inr ⟨rfl, rfl⟩)
  have howns : ∀ l id, World.Owns (w.addRecorder x)
      ((.recorder w.recorders.length, (w.channel x.channel).nextId.toNat) :: promises) l id →
      w.Owns promises l id ∨
        (l = .recorder w.recorders.length ∧ id = (w.channel x.channel).nextId.toNat) := by
    intro l id ho
    exact (World.owns_cons_iff.mp ho).imp_left (World.owns_of_addRecorder hx)
  have hlength : ((w.addRecorder x).subscribe x.channel pattern
      (.recorder w.recorders.length)).2.channels.length = w.channels.length :=
    World.length_channels_subscribe ..
  have hnumbered : Numbered ((w.addRecorder x).subscribe x.channel pattern
      (.recorder w.recorders.length)).2
      ((.recorder w.recorders.length, (w.channel x.channel).nextId.toNat) :: promises) :=
    h.numbered.subscribe pattern w.home?_newRecorder hcounts (fun _ => rfl) hlength hhome hself
      howns
  refine h.of_watchers hnumbered rfl hlength ?_ ?_ (h.nodup_cons w.home?_newRecorder _)
  · intro i
    have hne : Listener.watcher i ≠ .recorder w.recorders.length := nofun
    rw [World.registered_subscribe, or_iff_left (fun heq => hne heq.1)]
    exact World.registered_congr (fun _ => rfl) _
  · intro i id hi
    rcases List.mem_cons.mp hi with heq | hi
    · cases heq
    · exact hi

theorem subscribed {r : Nat} (h : Enrolled w ((.recorder r, id) :: promises)) :
    Enrolled (w.modifyRecorder r ({ · with subscription := some id })) promises := by
  have hhome : ∀ l, (w.modifyRecorder r ({ · with subscription := some id })).home? l =
      w.home? l := by
    apply World.home?_modifyRecorder
    intro x
    rfl
  have hnumbered : Numbered (w.modifyRecorder r ({ · with subscription := some id })) promises := by
    refine h.numbered.of_le (fun _ => rfl) rfl ?_ ?_
    · intro l d hd
      rw [hhome, hd]
    · rintro l id' (hn | hmem)
      · cases l with
        | watcher i => exact .inl hn
        | recorder j =>
          obtain ⟨u, hu, hid⟩ := World.number?_recorder_eq_some.mp hn
          rcases World.getElem?_modify_eq_some_iff.mp hu with ⟨rfl, u', hu', rfl⟩ | ⟨-, hu⟩
          · cases hid
            exact .inr List.mem_cons_self
          · exact .inl (World.number?_recorder_eq_some.mpr ⟨u, hu, hid⟩)
      · exact .inr (List.mem_cons_of_mem _ hmem)
  refine h.of_watchers hnumbered rfl rfl ?_ ?_ (List.nodup_cons.mp h.nodup).2
  · intro i
    exact World.registered_congr (fun _ => rfl) _
  · intro i id' hi
    exact List.mem_cons_of_mem _ hi

theorem unsubscribe (h : Enrolled w promises) {r : Nat} {x : Recorder}
    (hx : w.recorders[r]? = some x) (hid : x.subscription = some id) :
    Enrolled (w.unsubscribe x.channel id).2 promises := by
  have hself : w.home? (.recorder r) = some x.channel :=
    World.home?_recorder_eq_some.mpr ⟨x, hx, rfl⟩
  have howner : w.Owns promises (.recorder r) id :=
    .inl (World.number?_recorder_eq_some.mpr ⟨x, hx, hid⟩)
  have hlength : (w.unsubscribe x.channel id).2.channels.length = w.channels.length :=
    World.length_channels_unsubscribe ..
  have hnumbered : Numbered (w.unsubscribe x.channel id).2 promises :=
    h.numbered.unsubscribe (fun _ => rfl) hlength (fun _ => rfl) (fun _ _ ho => ho)
  refine h.of_watchers hnumbered rfl hlength ?_ (fun _ _ hi => hi) h.nodup
  intro i
  have hne : Listener.watcher i ≠ .recorder r := nofun
  rw [h.numbered.registered_unsubscribe hself howner, and_iff_left hne]

end Enrolled
end StoreClient.Tasks

import StoreClient.Proofs.Tasks.Enrolment
import StoreClient.Tasks.Machine

/-! # What a step changes

Callbacks start, stop and drop watchers while others are told, drained or started.  Every step of
a machine makes one of a few changes to the registrations (`World.Change`), and all of them keep the
watchers enrolled.  A watcher's signal is under way only as the innermost call and while the watcher
is active (`Machine.Aimed`): a delivery asks again before it tells a watcher, so one that was
stopped meanwhile is passed over.  Such signals alone submit drains, and no other step adds a job
(`World.Submission`).  What one step does is told by `Machine.leads_step`. -/

namespace StoreClient.Tasks

/-! ### What a step changes -/

/-- The listener and the number that a call will hand to its owner. -/
def Frame.promise? : Frame → Option (Listener × Nat)
  | .starting i id => some (.watcher i, id)
  | .subscribing r id => some (.recorder r, id)
  | _ => none

/-- The numbers that the calls under way will hand to owners of listeners. -/
def promised (k : List Frame) : List (Listener × Nat) := k.filterMap Frame.promise?

/-- The watcher that an action stops. -/
def Action.stops? : Action → Option Nat
  | .stop i | .drop i => some i
  | _ => none

/-- What a step does to registrations and promises, if it stops nothing or one watcher. -/
inductive World.Change (w : World) (promises : List (Listener × Nat)) (stopped : Option Nat) :
    World → List (Listener × Nat) → Prop
  | still {w' : World} {promises' : List (Listener × Nat)} (registry : w'.registry = w.registry)
    (broken : promises'.Sublist promises) : Change w promises stopped w' promises'
  | failedStart {v : Watcher} (inactive : v.active = false) (dropped : v.handle = .dropped) :
    Change w promises stopped (w.addWatcher v) promises
  | start {w' : World} {v : Watcher} (active : v.active = true) (starting : v.handle = .starting)
    (registry : w'.registry = ((w.addWatcher v).subscribe v.channel v.pattern
      (.watcher w.watchers.length)).2.registry) :
    Change w promises stopped w'
      ((.watcher w.watchers.length, (w.channel v.channel).nextId.toNat) :: promises)
  | started {i id : Nat} {promises' : List (Listener × Nat)}
    (kept : promises = (.watcher i, id) :: promises') :
    Change w promises stopped (w.modifyWatcher i ({ · with handle := .held (some id) })) promises'
  | stop {i : Nat} (stops : stopped = some i) : Change w promises stopped (w.stop i) promises
  | drop {i : Nat} {held : Watcher × Option Nat} (stops : stopped = some i)
    (owned : w.held? i = some held) : Change w promises stopped
      ((w.stop i).modifyWatcher i ({ · with handle := .dropped })) promises
  | failedSubscribe {x : Recorder} (unnumbered : x.subscription = none) :
    Change w promises stopped (w.addRecorder x) promises
  | subscribe {w' : World} {x : Recorder} {pattern : ByteSeq} (unnumbered : x.subscription = none)
    (registry : w'.registry =
      ((w.addRecorder x).subscribe x.channel pattern (.recorder w.recorders.length)).2.registry) :
    Change w promises stopped w'
      ((.recorder w.recorders.length, (w.channel x.channel).nextId.toNat) :: promises)
  | subscribed {r id : Nat} {promises' : List (Listener × Nat)}
    (kept : promises = (.recorder r, id) :: promises') :
    Change w promises stopped (w.modifyRecorder r ({ · with subscription := some id })) promises'
  | unsubscribe {r id : Nat} {x : Recorder} (found : w.recorders[r]? = some x)
    (numbered : x.subscription = some id) :
    Change w promises stopped (w.unsubscribe x.channel id).2 promises

namespace World.Change

variable {w w' : World} {promises promises' : List (Listener × Nat)} {stopped : Option Nat}

/-- Watchers stay enrolled as long as no counter begins anew. -/
theorem enrolled (h : w.Change promises stopped w' promises') (hw : Enrolled w promises)
    (hcounts : w.CountsUp w') : Enrolled w' promises' := by
  have hcounts_of : ∀ {w₁ : World}, w'.registry = w₁.registry → w.CountsUp w₁ := by
    intro w₁ hr c
    rw [← World.channel_congr (Registry.mk.inj hr).1 c]
    exact hcounts c
  cases h with
  | still registry broken => exact hw.still registry broken
  | failedStart inactive dropped => exact hw.addWatcher inactive dropped
  | start active starting registry =>
    exact (hw.start active starting (hcounts_of registry)).still registry (List.Sublist.refl _)
  | started kept =>
    subst kept
    exact hw.started
  | stop => exact hw.stop _
  | drop _ owned => exact hw.drop owned
  | failedSubscribe unnumbered => exact hw.addRecorder unnumbered
  | subscribe unnumbered registry =>
    exact (hw.subscribe unnumbered _ (hcounts_of registry)).still registry
      (List.Sublist.refl _)
  | subscribed kept =>
    subst kept
    exact hw.subscribed
  | unsubscribe found numbered => exact hw.unsubscribe found numbered

/-- A dropped watcher stays dropped, and one that is not stopped stays as active as it was. -/
structure Follows (stopped : Prop) (v v' : Watcher) : Prop where
  dropped : v.handle = .dropped → v'.handle = .dropped
  active : v'.active = v.active ∨ (v'.active = false ∧ stopped)

theorem Follows.refl (stopped : Prop) (v : Watcher) : Follows stopped v v := ⟨id, .inl rfl⟩

theorem watcher (h : w.Change promises stopped w' promises') (hw : Enrolled w promises) {i : Nat}
    {v : Watcher} (hv : w.watchers[i]? = some v) :
    ∃ v', w'.watchers[i]? = some v' ∧
      Follows (stopped = some i ∧ (w.held? i).isSome = true) v v' := by
  have same : w'.watchers = w.watchers → ∃ v', w'.watchers[i]? = some v' ∧
      Follows (stopped = some i ∧ (w.held? i).isSome = true) v v' := by
    intro heq
    exact ⟨v, by rw [heq, hv], .refl _ v⟩
  have other : ∀ {j f}, i ≠ j → w'.watchers = w.watchers.modify j f →
      ∃ v', w'.watchers[i]? = some v' ∧
        Follows (stopped = some i ∧ (w.held? i).isSome = true) v v' := by
    intro j f hij heq
    refine ⟨v, ?_, .refl _ v⟩
    rw [heq]
    exact World.getElem?_modify_eq_some_iff.mpr (.inr ⟨hij, hv⟩)
  cases h with
  | still registry => exact same (Registry.mk.inj registry).2.1
  | failedStart => exact ⟨v, World.getElem?_concat_eq_some_iff.mpr (.inl hv), .refl _ v⟩
  | start _ _ registry =>
    refine ⟨v, ?_, .refl _ v⟩
    rw [(Registry.mk.inj registry).2.1]
    exact World.getElem?_concat_eq_some_iff.mpr (.inl hv)
  | @started j id _ kept =>
    by_cases hij : i = j
    · subst hij
      refine ⟨_, World.getElem?_modify_eq_some_iff.mpr (.inl ⟨rfl, v, hv, rfl⟩), ?_, .inl rfl⟩
      intro hdropped
      obtain ⟨u, hu, hstarting⟩ := hw.starting i id (kept ▸ List.mem_cons_self)
      cases hv.symm.trans hu
      rw [hdropped] at hstarting
      cases hstarting
    · exact other hij rfl
  | @stop j stops =>
    cases hheld : w.held? j with
    | none =>
      apply same
      rw [World.stop, hheld]
    | some held =>
      by_cases hij : i = j
      · subst hij
        obtain ⟨v', hv', hactive, -⟩ := World.exists_of_stop hheld
        refine ⟨v', hv', ?_, .inr ⟨hactive, stops, by rw [hheld]; rfl⟩⟩
        intro hdropped
        exact absurd hdropped (World.handle_ne_dropped hheld hv)
      · exact other hij (World.watchers_stop hheld)
  | @drop j held stops owned =>
    by_cases hij : i = j
    · subst hij
      obtain ⟨v', hv', hactive, -⟩ := World.exists_of_stop owned
      refine ⟨_, World.getElem?_modify_eq_some_iff.mpr (.inl ⟨rfl, v', hv', rfl⟩), fun _ => rfl,
        .inr ⟨hactive, stops, by rw [owned]; rfl⟩⟩
    · refine ⟨v, World.getElem?_modify_eq_some_iff.mpr (.inr ⟨hij, ?_⟩), .refl _ v⟩
      rw [World.watchers_stop owned]
      exact World.getElem?_modify_eq_some_iff.mpr (.inr ⟨hij, hv⟩)
  | failedSubscribe => exact same rfl
  | subscribe _ registry => exact same (Registry.mk.inj registry).2.1
  | subscribed => exact same rfl
  | unsubscribe => exact same rfl

theorem newcomer (h : w.Change promises stopped w' promises') {i : Nat} {v' : Watcher}
    (hnew : w.watchers[i]? = none) (hv' : w'.watchers[i]? = some v') :
    v'.active = true ∨ v'.handle = .dropped := by
  have same : w'.watchers.length = w.watchers.length → False := by
    intro heq
    have hlt := (List.getElem?_eq_some_iff.mp hv').1
    have hle := List.getElem?_eq_none_iff.mp hnew
    omega
  have joined : ∀ v, (w.addWatcher v).watchers[i]? = some v' → v' = v := by
    intro v hv
    rcases World.getElem?_concat_eq_some_iff.mp hv with hv | ⟨-, hv⟩
    · rw [hnew] at hv
      cases hv
    · exact hv
  cases h with
  | still registry => exact (same (congrArg List.length (Registry.mk.inj registry).2.1)).elim
  | failedStart inactive dropped => exact .inr (joined _ hv' ▸ dropped)
  | start active starting registry =>
    rw [(Registry.mk.inj registry).2.1] at hv'
    exact .inl (joined _ hv' ▸ active)
  | started => exact (same (List.length_modify ..)).elim
  | stop => exact (same (World.length_watchers_stop _ _)).elim
  | drop => exact (same ((List.length_modify ..).trans (World.length_watchers_stop _ _))).elim
  | failedSubscribe => exact (same rfl).elim
  | subscribe _ registry =>
    exact (same (congrArg List.length (Registry.mk.inj registry).2.1)).elim
  | subscribed => exact (same rfl).elim
  | unsubscribe => exact (same rfl).elim

end World.Change

/-! ### Signals under way -/

def Frame.fires : Frame → Bool
  | .firing .. => true
  | _ => false

/-- A call that promises nothing and is no signal of a watcher. -/
def Frame.plain (f : Frame) : Bool := f.promise?.isNone && !f.fires

def Quiet (k : List Frame) : Prop := ∀ f ∈ k, f.fires = false

/-- Only the innermost call can be a watcher's signal, and then the watcher is active. -/
inductive Machine.Aimed : Machine → Prop
  | quiet {m : Machine} (quiet : Quiet m.stack) : Aimed m
  | firing {w : World} {i : Nat} {point : Signal} {k : List Frame} {v : Watcher}
    (found : w.watchers[i]? = some v) (active : v.active = true) (quiet : Quiet k) :
    Aimed ⟨w, .firing i point :: k, .running⟩

def World.jobs (w : World) : List Nat × List Nat := (w.deferred, w.spawned)

/-- No job was added, and those that are left have kept their order. -/
structure World.Fewer (w w' : World) : Prop where
  deferred : w'.deferred.Sublist w.deferred
  spawned : w'.spawned.Sublist w.spawned

/-- What a step does to the jobs, if no watcher submits a drain with it, or one does. -/
inductive World.Submission (w : World) : Option Nat → World → Prop
  | nothing {w' : World} (fewer : w.Fewer w') : Submission w none w'
  | drain {w' : World} {i : Nat} {v : Watcher} (found : w.watchers[i]? = some v)
    (active : v.active = true) (jobs : w'.jobs = (w.submit v.executor v.task).jobs) :
    Submission w (some i) w'

def World.books (w : World) : Registry × List Nat × List Nat := (w.registry, w.jobs)

/-- A machine that goes on above calls, after a change to the registrations and the jobs. -/
structure World.Leads (w : World) (promises : List (Listener × Nat))
    (stopped submitted : Option Nat) (k : List Frame) (m : Machine) : Prop where
  change : w.Change promises stopped m.world (promised m.stack)
  submission : w.Submission submitted m.world
  aimed : Quiet k → m.Aimed

theorem promised_append (frames k : List Frame) :
    promised (frames ++ k) = promised frames ++ promised k := List.filterMap_append

theorem promised_of_plain {frames : List Frame} (h : frames.all Frame.plain = true) :
    promised frames = [] := by
  apply List.filterMap_eq_nil_iff.mpr
  intro f hf
  have hplain := List.all_eq_true.mp h f hf
  rw [Frame.plain, Bool.and_eq_true] at hplain
  exact Option.isNone_iff_eq_none.mp hplain.1

theorem quiet_of_plain {frames : List Frame} (h : frames.all Frame.plain = true) :
    Quiet frames := by
  intro f hf
  have hplain := List.all_eq_true.mp h f hf
  rw [Frame.plain, Bool.and_eq_true] at hplain
  exact (Bool.not_eq_true' _).mp hplain.2

theorem Quiet.append {frames k : List Frame} (hframes : Quiet frames) (hk : Quiet k) :
    Quiet (frames ++ k) := by
  intro f hf
  rcases List.mem_append.mp hf with hf | hf
  · exact hframes f hf
  · exact hk f hf

theorem Quiet.tail {f : Frame} {k : List Frame} (h : Quiet (f :: k)) : Quiet k :=
  fun g hg => h g (List.mem_cons_of_mem f hg)

namespace World

variable {w w' : World} {promises : List (Listener × Nat)} {stopped submitted : Option Nat}
  {k : List Frame}

theorem registry_of_books (h : w'.books = w.books) : w'.registry = w.registry :=
  (Prod.mk.inj h).1

theorem Submission.of_jobs (h : w'.jobs = w.jobs) : w.Submission none w' := by
  obtain ⟨hdeferred, hspawned⟩ := Prod.mk.inj h
  exact .nothing ⟨hdeferred ▸ List.Sublist.refl _, hspawned ▸ List.Sublist.refl _⟩

theorem Submission.of_books (h : w'.books = w.books) : w.Submission none w' :=
  .of_jobs (Prod.mk.inj h).2

namespace Leads

theorem cons {m : Machine} (h : w.Leads promises stopped submitted k m) (f : Frame) :
    w.Leads promises stopped submitted (f :: k) m where
  change := h.change
  submission := h.submission
  aimed hquiet := h.aimed hquiet.tail

theorem enter_of {frames : List Frame} (hr : w'.registry = w.registry)
    (hjobs : w.Submission submitted w') (hframes : frames.all Frame.plain = true)
    (hk : (promised k).Sublist promises) :
    w.Leads promises stopped submitted k (w'.enter frames k) where
  change := by
    refine .still hr ?_
    show (promised (frames ++ k)).Sublist promises
    rw [promised_append, promised_of_plain hframes]
    exact hk
  submission := hjobs
  aimed hquiet := .quiet ((quiet_of_plain hframes).append hquiet)

theorem enter {frames : List Frame} (hb : w'.books = w.books)
    (hframes : frames.all Frame.plain = true) (hk : (promised k).Sublist promises) :
    w.Leads promises stopped none k (w'.enter frames k) :=
  enter_of (registry_of_books hb) (.of_books hb) hframes hk

theorem ended_of (h : w.Change promises stopped w' (promised k)) (hjobs : w.Submission submitted w')
    (r : Result) : w.Leads promises stopped submitted k ⟨w', k, .ended r⟩ where
  change := h
  submission := hjobs
  aimed hquiet := .quiet hquiet

theorem ended (hb : w'.books = w.books) (hk : (promised k).Sublist promises) (r : Result) :
    w.Leads promises stopped none k ⟨w', k, .ended r⟩ :=
  ended_of (.still (registry_of_books hb) hk) (.of_books hb) r

end Leads

/-! ### Books that stay -/

theorem books_of_pop? {t : Nat} {item : Item} (h : w.pop? t = some (item, w')) :
    w'.books = w.books := by
  unfold pop? at h
  split at h
  · cases h
  · cases h
    rfl

theorem books_of_takeOnEmpty {t : Nat} {script : List Action}
    (h : w.takeOnEmpty t = some (script, w')) : w'.books = w.books := by
  unfold takeOnEmpty at h
  split at h
  · cases h
  · cases h
    rfl

theorem books_of_takeHookScript {t : Nat} {script : List Action}
    (h : w.takeHookScript t = some (script, w')) : w'.books = w.books := by
  unfold takeHookScript at h
  split at h
  · cases h
    rfl
  · cases h

theorem registry_submit (w : World) (executor : Executor) (t : Nat) :
    (w.submit executor t).registry = w.registry := by
  cases executor <;> rfl

theorem jobs_submit (h : w'.jobs = w.jobs) (executor : Executor) (t : Nat) :
    (w'.submit executor t).jobs = (w.submit executor t).jobs := by
  obtain ⟨hdeferred, hspawned⟩ := Prod.mk.inj h
  cases executor with
  | inline => exact h
  | deferred => exact Prod.ext (congrArg (· ++ [t]) hdeferred) hspawned
  | background => exact Prod.ext hdeferred (congrArg (· ++ [t]) hspawned)

theorem jobs_stop (w : World) (i : Nat) : (w.stop i).jobs = w.jobs := by
  unfold stop
  split
  · rfl
  · split <;> rfl

theorem books_modifyRecorder {r : Nat} {x y : Recorder} (hx : w.recorders[r]? = some x)
    (hchannel : y.channel = x.channel) (hsubscription : y.subscription = x.subscription) :
    (w.modifyRecorder r fun _ => y).books = w.books := by
  have hrecorders : (w.recorders.modify r fun _ => y).map (fun x => (x.channel, x.subscription)) =
      w.recorders.map (fun x => (x.channel, x.subscription)) := by
    apply List.ext_getElem?
    intro j
    rw [List.getElem?_map, List.getElem?_map, List.getElem?_modify]
    split
    · next hj =>
      subst hj
      rw [hx]
      exact congrArg some (Prod.ext hchannel hsubscription)
    · rw [id_map']
  exact congrArg (fun recorders => (Registry.mk w.channels w.watchers recorders, w.jobs)) hrecorders

theorem books_of_takeOnKey {r : Nat} {script : List Action}
    (h : w.takeOnKey r = some (script, w')) : w'.books = w.books := by
  unfold takeOnKey at h
  split at h
  · next hx =>
    cases h
    exact books_modifyRecorder hx rfl rfl
  · cases h

theorem books_of_takeOnSubscribed {r : Nat} {script : List Action}
    (h : w.takeOnSubscribed r = some (script, w')) : w'.books = w.books := by
  unfold takeOnSubscribed at h
  split at h
  · next hx =>
    cases h
    exact books_modifyRecorder hx rfl rfl
  · cases h

theorem books_runNext {taken : Option (List Action × World)}
    (h : ∀ {script w'}, taken = some (script, w') → w'.books = w.books) :
    (w.runNext taken).1.books = w.books ∧ (w.runNext taken).2.all Frame.plain = true := by
  cases taken with
  | none => exact ⟨rfl, rfl⟩
  | some next => exact ⟨h rfl, rfl⟩

/-- What runs for a listener that is told: plain calls, or the signal of an active watcher. -/
theorem notify_cases (w : World) (e : Event) (l : Listener) :
    (w.notify e l).1.books = w.books ∧ ((w.notify e l).2.all Frame.plain = true ∨
      ∃ i v, w.watchers[i]? = some v ∧ v.active = true ∧
        (w.notify e l).2 = [.firing i .attempt]) := by
  cases l with
  | watcher i =>
    simp only [notify]
    split
    · next v hv =>
      by_cases hactive : v.active = true
      · exact ⟨rfl, .inr ⟨i, v, hv, hactive, if_pos hactive⟩⟩
      · rw [if_neg hactive]
        exact ⟨rfl, .inl rfl⟩
    · exact ⟨rfl, .inl rfl⟩
  | recorder r =>
    cases e with
    | keyChanged key =>
      simp only [notify]
      split
      · exact ⟨rfl, .inl rfl⟩
      · next bytes _ =>
        obtain ⟨hbooks, hplain⟩ :=
          (w.note (.keyChanged r bytes)).books_runNext books_of_takeOnKey
        exact ⟨hbooks, .inl hplain⟩
    | subscribed =>
      obtain ⟨hbooks, hplain⟩ :=
        (w.note (.subscribed r)).books_runNext books_of_takeOnSubscribed
      exact ⟨hbooks, .inl hplain⟩

variable (w)

theorem promised_notify (e : Event) (l : Listener) : promised (w.notify e l).2 = [] := by
  obtain ⟨-, hplain | ⟨i, v, -, -, hfiring⟩⟩ := w.notify_cases e l
  · exact promised_of_plain hplain
  · rw [hfiring]
    rfl

theorem aimed_notify (e : Event) (l : Listener) {k : List Frame} (hk : Quiet k) :
    ((w.notify e l).1.enter (w.notify e l).2 k).Aimed := by
  obtain ⟨hbooks, hplain | ⟨i, v, hv, hactive, hfiring⟩⟩ := w.notify_cases e l
  · exact .quiet ((quiet_of_plain hplain).append hk)
  · have hwatchers := (Registry.mk.inj (registry_of_books hbooks)).2.1
    rw [hfiring]
    exact .firing (by rw [hwatchers]; exact hv) hactive hk

/-! ### Steps -/

theorem leads_notify {w₁ : World} {promises : List (Listener × Nat)} {stopped : Option Nat}
    {e : Event} {l : Listener} {f : Frame} {k : List Frame} (hf : f.fires = false)
    (hjobs : w₁.jobs = w.jobs)
    (h : ∀ w', w'.registry = w₁.registry → w.Change promises stopped w' (promised (f :: k))) :
    w.Leads promises stopped none k ((w₁.notify e l).1.enter ((w₁.notify e l).2 ++ [f]) k) := by
  have hstack : (w₁.notify e l).1.enter ((w₁.notify e l).2 ++ [f]) k =
      (w₁.notify e l).1.enter (w₁.notify e l).2 (f :: k) := by
    rw [enter, enter, List.append_assoc, List.singleton_append]
  rw [hstack]
  constructor
  · have hpromised : promised ((w₁.notify e l).2 ++ f :: k) = promised (f :: k) := by
      rw [promised_append, promised_notify, List.nil_append]
    have hchange := h (w₁.notify e l).1 (registry_of_books (w₁.notify_cases e l).1)
    rw [← hpromised] at hchange
    exact hchange
  · exact .of_jobs ((Prod.mk.inj (w₁.notify_cases e l).1).2.trans hjobs)
  · intro hk
    apply aimed_notify
    intro g hg
    rcases List.mem_cons.mp hg with rfl | hg
    · exact hf
    · exact hk g hg

theorem leads_start (t c : Nat) (executor : Executor) (pattern : ByteSeq) (k : List Frame) :
    w.Leads (promised k) none none k (w.begin (.start t c executor (.ok pattern)) k) := by
  let v : Watcher := ⟨t, c, executor, pattern, true, .starting⟩
  refine @leads_notify w ((w.addWatcher v).subscribe c pattern (.watcher w.watchers.length)).2
    _ _ .subscribed (.watcher w.watchers.length)
    (.starting w.watchers.length (w.channel c).nextId.toNat) k rfl rfl ?_
  intro w' hw'
  exact @Change.start w _ _ w' v rfl rfl hw'

theorem leads_subscribe (c : Nat) (pattern : ByteSeq) (onKey onSubscribed : List (List Action))
    (k : List Frame) : w.Leads (promised k) none none k
      (w.begin (.subscribe c (.ok pattern) onKey onSubscribed) k) := by
  let x : Recorder := ⟨c, onKey, onSubscribed, none⟩
  refine @leads_notify w ((w.addRecorder x).subscribe c pattern (.recorder w.recorders.length)).2
    _ _ .subscribed (.recorder w.recorders.length)
    (.subscribing w.recorders.length (w.channel c).nextId.toNat) k rfl rfl ?_
  intro w' hw'
  exact @Change.subscribe w _ _ w' x pattern rfl hw'

theorem leads_begin (a : Action) (k : List Frame) :
    w.Leads (promised k) a.stops? none k (w.begin a k) := by
  have look : ∀ r, w.Leads (promised k) a.stops? none k ⟨w, k, .ended r⟩ :=
    fun r => .ended rfl (List.Sublist.refl _) r
  have go : ∀ {frames}, frames.all Frame.plain = true →
      w.Leads (promised k) a.stops? none k (w.enter frames k) :=
    fun h => .enter rfl h (List.Sublist.refl _)
  cases a with
  | push | signalWaiting =>
    refine .ended ?_ (List.Sublist.refl _) _
    rfl
  | queue | state | task | subscriptions | pendingJobs => exact look _
  | signalReady | run | resubscribe | jobs => exact go rfl
  | watcher i =>
    simp only [begin]
    split <;> exact look _
  | poll t =>
    simp only [begin]
    split
    · next h => exact .enter (books_of_pop? h) rfl (List.Sublist.refl _)
    · split
      · next h => exact .enter (books_of_takeOnEmpty h) rfl (List.Sublist.refl _)
      · exact look _
  | publish c key =>
    cases key with
    | error f => exact look _
    | ok key =>
      simp only [begin]
      split
      · exact go rfl
      · exact look _
  | job place =>
    simp only [begin]
    split
    · have hfewer : w.Fewer { w with deferred := w.deferred.eraseIdx place } :=
        ⟨List.eraseIdx_sublist _ _, List.Sublist.refl _⟩
      exact .enter_of rfl (.nothing hfewer) rfl (List.Sublist.refl _)
    · exact look _
  | start t c executor pattern =>
    cases pattern with
    | error f => exact .ended_of (.failedStart rfl rfl) (.of_jobs (by rfl)) _
    | ok pattern => exact w.leads_start t c executor pattern k
  | stop i =>
    simp only [begin]
    split
    · exact .ended_of (.stop rfl) (.of_jobs (w.jobs_stop i)) _
    · exact look _
  | drop i =>
    simp only [begin]
    split
    · next held hheld => exact .ended_of (.drop rfl hheld) (.of_jobs (w.jobs_stop i)) _
    · exact look _
  | subscribe c pattern onKey onSubscribed =>
    cases pattern with
    | error f => exact .ended_of (.failedSubscribe rfl) (.of_jobs (by rfl)) _
    | ok pattern => exact w.leads_subscribe c pattern onKey onSubscribed k
  | unsubscribe r =>
    simp only [begin]
    split
    · next c _ _ id hx => exact .ended_of (.unsubscribe hx rfl) (.of_jobs (by rfl)) _
    · exact look _

theorem leads_fail {promises : List (Listener × Nat)} {stopped : Option Nat} {k : List Frame}
    (hk : (promised k).Sublist promises) (t : Nat) (error : String) :
    w.Leads promises stopped none k (w.fail t error k) := by
  simp only [fail]
  split
  · exact .ended (by rfl) hk _
  · split
    · next h =>
      exact .enter ((books_of_takeHookScript h).trans rfl) rfl hk
    · exact .ended (by rfl) hk _

theorem leads_advanceDrain {promises : List (Listener × Nat)} {stopped : Option Nat}
    {k : List Frame} (hk : (promised k).Sublist promises) (t : Nat) (point : Drain)
    (taken : UInt64) : w.Leads promises stopped none k (w.advanceDrain k t point taken) := by
  simp only [advanceDrain]
  split
  · exact .enter (by rfl) rfl hk
  · exact .ended (by rfl) hk _

theorem leads_drain {promises : List (Listener × Nat)} {stopped : Option Nat} {k : List Frame}
    (hk : (promised k).Sublist promises) (t : Nat) (point : Drain) (taken : UInt64) :
    w.Leads promises stopped none k (w.advance k (.drain t point taken)) := by
  by_cases hpoint : point = .poll
  · subst hpoint
    simp only [advance]
    split
    · next h => exact .enter (books_of_pop? h) rfl hk
    · split
      · next h => exact .enter (books_of_takeOnEmpty h) rfl hk
      · exact .enter (by rfl) rfl hk
  · rw [advance_drain hpoint]
    exact w.leads_advanceDrain hk t point taken

end World

/-- The watcher that the next step of a call stops. -/
def Frame.stops? : Frame → Option Nat
  | .script (a :: _) => a.stops?
  | _ => none

namespace World

variable (w : World)

/-- The watcher that hands a drain of its task to its executor with the next step of a call. -/
def submits? : Frame → Option Nat
  | .firing i point =>
    match w.watchers[i]? with
    | some v => if (point.step (w.task v.task).cell).2 = .done true then some i else none
    | none => none
  | _ => none

theorem leads_firing {i : Nat} {v : Watcher} (point : Signal) {k : List Frame}
    (hv : w.watchers[i]? = some v) (hactive : v.active = true)
    (hk : (promised k).Sublist (promised (.firing i point :: k))) :
    w.Leads (promised (.firing i point :: k)) none (w.submits? (.firing i point)) k
      (w.advance k (.firing i point)) := by
  simp only [advance, submits?, hv]
  cases (point.step (w.task v.task).cell).2 with
  | goTo next =>
    rw [if_neg nofun]
    exact ⟨.still (by rfl) hk, .of_books (by rfl), fun hquiet => .firing hv hactive hquiet⟩
  | done owed =>
    cases owed with
    | false => exact .ended (by rfl) hk _
    | true =>
      rw [if_pos rfl]
      cases hexecutor : v.executor with
      | inline =>
        exact .enter_of (by rfl) (.drain hv hactive (by rw [hexecutor]; rfl)) rfl hk
      | deferred | background =>
        refine .ended_of (.still ?_ hk) (.drain hv hactive ?_) _
        · rw [registry_submit]
          rfl
        · rw [hexecutor]
          exact jobs_submit rfl _ _

theorem leads_advance (f : Frame) (k : List Frame)
    (hf : ∀ i point, f = .firing i point → ∃ v, w.watchers[i]? = some v ∧ v.active = true) :
    w.Leads (promised (f :: k)) f.stops? (w.submits? f) k (w.advance k f) := by
  have hk : (promised k).Sublist (promised (f :: k)) := (List.sublist_cons_self f k).filterMap _
  cases f with
  | script rest =>
    cases rest with
    | nil => exact .ended (by rfl) hk _
    | cons a rest =>
      have hbegin := w.leads_begin a (.acting a :: .script rest :: k)
      refine ⟨hbegin.change, hbegin.submission, fun hquiet => hbegin.aimed ?_⟩
      have hframes : Quiet [.acting a, .script rest] := quiet_of_plain rfl
      exact hframes.append hquiet
  | acting a => exact .ended (by rfl) hk _
  | signal t point =>
    simp only [advance]
    split
    · exact .enter (by rfl) rfl hk
    · exact .ended (by rfl) hk _
  | firing i point =>
    obtain ⟨v, hv, hactive⟩ := hf i point rfl
    exact w.leads_firing point hv hactive hk
  | drain t point taken => exact w.leads_drain hk t point taken
  | handing t item =>
    simp only [advance]
    split
    · exact .ended (by rfl) hk _
    · exact .enter (by rfl) rfl hk
  | accepting t item =>
    simp only [advance]
    split
    · exact w.leads_fail hk ..
    · exact w.leads_fail hk ..
    · exact .ended (by rfl) hk _
  | delivering e rest count =>
    cases rest with
    | nil => exact .ended (by rfl) hk _
    | cons l rest => exact w.leads_notify rfl rfl fun w' hw' => .still hw' (List.Sublist.refl _)
  | starting i id => exact .ended_of (.started rfl) (.of_jobs (by rfl)) _
  | subscribing r id => exact .ended_of (.subscribed rfl) (.of_jobs (by rfl)) _
  | working left done =>
    cases left with
    | zero => exact .ended (by rfl) hk _
    | succ left =>
      simp only [advance]
      split
      · exact .ended (by rfl) hk _
      · next t rest hdeferred =>
        have hfewer : w.Fewer { w with deferred := rest } :=
          ⟨hdeferred ▸ List.sublist_cons_self _ _, List.Sublist.refl _⟩
        exact .enter_of (by rfl) (.nothing hfewer) rfl hk
  | ending result => exact .ended (by rfl) hk _
  | settling result =>
    simp only [advance]
    split
    · exact .ended (by rfl) hk _
    · next t rest hspawned =>
      have hfewer : w.Fewer { w with spawned := rest } :=
        ⟨List.Sublist.refl _, hspawned ▸ List.sublist_cons_self _ _⟩
      exact .enter_of (by rfl) (.nothing hfewer) rfl hk

theorem leads_resume (r : Result) (f : Frame) (k : List Frame) :
    w.Leads (promised (f :: k)) none none (f :: k) (w.resume k r f) := by
  have hk : (promised k).Sublist (promised (f :: k)) := (List.sublist_cons_self f k).filterMap _
  have again : w.Leads (promised (f :: k)) none none (f :: k) (w.enter [f] k) :=
    ⟨.still rfl (List.Sublist.refl _), .of_books rfl, fun hquiet => .quiet hquiet⟩
  unfold resume
  split
  · exact (Leads.enter (by rfl) rfl hk).cons _
  · exact again
  · exact (Leads.enter (by rfl) rfl hk).cons _
  · exact again
  · refine (Leads.ended ?_ hk _).cons _
    split <;> rfl
  · exact (w.leads_fail hk ..).cons _
  · exact (Leads.ended (by rfl) hk _).cons _

end World

namespace Machine

/-- The watcher that the next step stops. -/
def stops? (m : Machine) : Option Nat :=
  match m.mode, m.stack with
  | .running, f :: _ => f.stops?
  | _, _ => none

/-- The watcher that hands a drain of its task to its executor with the next step. -/
def submits? (m : Machine) : Option Nat :=
  match m.mode, m.stack with
  | .running, f :: _ => m.world.submits? f
  | _, _ => none

variable {m m' : Machine}

theorem leads_step (h : m.Aimed) :
    m.world.Change (promised m.stack) m.stops? m.step.world (promised m.step.stack) ∧
      m.world.Submission m.submits? m.step.world ∧ m.step.Aimed := by
  obtain ⟨w, stack, mode⟩ := m
  cases stack with
  | nil =>
    have hnone : submits? ⟨w, [], mode⟩ = none := by cases mode <;> rfl
    rw [hnone]
    exact ⟨.still rfl (List.Sublist.refl _), .of_books rfl, h⟩
  | cons f k =>
    cases mode with
    | running =>
      cases h with
      | quiet hquiet =>
        have hf : ∀ i point, f = .firing i point →
            ∃ v, w.watchers[i]? = some v ∧ v.active = true := by
          rintro i point rfl
          have hfires := hquiet _ List.mem_cons_self
          cases hfires
        have hleads := w.leads_advance f k hf
        exact ⟨hleads.change, hleads.submission, hleads.aimed hquiet.tail⟩
      | @firing _ i point _ v found active hquiet =>
        have hf : ∀ j point', Frame.firing i point = .firing j point' →
            ∃ v, w.watchers[j]? = some v ∧ v.active = true := by
          rintro j point' ⟨⟩
          exact ⟨v, found, active⟩
        have hleads := w.leads_advance _ k hf
        exact ⟨hleads.change, hleads.submission, hleads.aimed hquiet⟩
    | ended r =>
      have hleads := w.leads_resume r f k
      refine ⟨?_, hleads.submission, ?_⟩
      · cases r <;> exact hleads.change
      · cases h with
        | quiet hquiet => exact hleads.aimed hquiet

end Machine
end StoreClient.Tasks

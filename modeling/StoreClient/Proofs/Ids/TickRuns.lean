import StoreClient.Proofs.Ids.FieldBits
import StoreClient.Proofs.Ids.Overtaking
import StoreClient.Proofs.Ids.Runs
import StoreClient.Proofs.Ids.Waiting

/-! # The ids of a tick

An id either opens a later tick or takes the next number of the last one (`IdParts.Follows`), so the
ids of any run of polls are runs of ticks, one after the other: those of a tick stand together, carry
one worker and are numbered from zero without a gap (`TickRun.After`).  And no number is withheld: in
the last tick its worker has the next one at every poll that is not too far behind, unless an
overflow has poisoned the lock (`IdGenerator.tick_runs`). -/

namespace StoreClient

/-! ### Runs of ids -/

namespace IdParts

/-- The next number of the same tick and worker. -/
def next (p : IdParts) : IdParts := { p with sequence := p.sequence + 1 }

/-- What may follow on the fields of the last id, if there is one. -/
inductive Follows : Option IdParts → IdParts → Prop
  /-- The first number of a later tick, for any worker. -/
  | opens {last : Option IdParts} {p : IdParts} (first : p.sequence = 0)
    (later : ∀ q ∈ last, q.timestamp < p.timestamp) : Follows last p
  | continues (q : IdParts) : Follows (some q) q.next

end IdParts

/-- The ids of one tick: all of one worker, and numbered from zero. -/
structure TickRun where
  tick : Nat
  worker : Nat
  count : Nat

namespace TickRun

def parts (run : TickRun) : List IdParts :=
  (List.range run.count).map fun s => ⟨run.tick, run.worker, s⟩

/-- So many numbers after that of the last id, in its tick. -/
def further : Option IdParts → Nat → List IdParts
  | none, _ => []
  | some q, n => (List.range' (q.sequence + 1) n).map fun s => ⟨q.timestamp, q.workerId, s⟩

/-- Ids after the last one: further numbers of its tick, and then runs of later ticks. -/
def After (last : Option IdParts) (ps : List IdParts) : Prop :=
  ∃ (n : Nat) (runs : List TickRun), ps = further last n ++ runs.flatMap parts ∧
    (runs.map tick).Pairwise (· < ·) ∧ ∀ run ∈ runs, ∀ q ∈ last, q.timestamp < run.tick

variable {last : Option IdParts} {p : IdParts} {ps : List IdParts} {runs : List TickRun}

theorem further_zero (last : Option IdParts) : further last 0 = [] := by
  cases last with
  | none => rfl
  | some q => rfl

theorem further_succ (q : IdParts) (n : Nat) :
    further (some q) (n + 1) = q.next :: further (some q.next) n := by
  rw [further, List.range'_succ, List.map_cons]
  rfl

/-- An id that opens a tick begins a run of its own. -/
theorem parts_succ (first : p.sequence = 0) (n : Nat) :
    parts ⟨p.timestamp, p.workerId, n + 1⟩ = p :: further (some p) n := by
  rw [parts, List.range_eq_range', List.range'_succ, List.map_cons, further, first, ← first]

theorem After.cons (h : After (some p) ps) (hp : IdParts.Follows last p) : After last (p :: ps) := by
  obtain ⟨n, runs, rfl, hsorted, hlater⟩ := h
  cases hp with
  | opens first later =>
    refine ⟨0, ⟨p.timestamp, p.workerId, n + 1⟩ :: runs, ?_, ?_, ?_⟩
    · rw [further_zero, List.flatMap_cons, parts_succ first]
      rfl
    · rw [List.map_cons, List.pairwise_cons]
      refine ⟨?_, hsorted⟩
      intro t ht
      obtain ⟨run, hrun, rfl⟩ := List.mem_map.mp ht
      exact hlater run hrun p rfl
    · intro run hrun q hq
      rcases List.mem_cons.mp hrun with rfl | hrun
      · exact later q hq
      · exact Nat.lt_trans (later q hq) (hlater run hrun p rfl)
  | continues q =>
    refine ⟨n + 1, runs, ?_, hsorted, ?_⟩
    · rw [further_succ]
      rfl
    · rintro run hrun _ ⟨⟩
      exact hlater run hrun q.next rfl

theorem exists_run_of_mem (h : p ∈ runs.flatMap parts) : ∃ run ∈ runs, p.timestamp = run.tick := by
  obtain ⟨run, hrun, hp⟩ := List.mem_flatMap.mp h
  obtain ⟨s, -, rfl⟩ := List.mem_map.mp hp
  exact ⟨run, hrun, rfl⟩

/-- Around the run of a tick no id has that tick. -/
theorem After.split (h : After none ps) (t : Nat) :
    ∃ before after w n, ps = before ++ parts ⟨t, w, n⟩ ++ after ∧
      ∀ p ∈ before ++ after, p.timestamp ≠ t := by
  obtain ⟨n, runs, rfl, hsorted, -⟩ := h
  by_cases ht : ∃ run ∈ runs, run.tick = t
  · obtain ⟨run, hrun, rfl⟩ := ht
    obtain ⟨earlier, later, rfl⟩ := List.append_of_mem hrun
    rw [List.map_append, List.map_cons, List.pairwise_append, List.pairwise_cons] at hsorted
    obtain ⟨-, ⟨hlater, -⟩, hearlier⟩ := hsorted
    refine ⟨earlier.flatMap parts, later.flatMap parts, run.worker, run.count, ?_, ?_⟩
    · rw [List.flatMap_append, List.flatMap_cons, List.append_assoc]
      rfl
    · intro p hp
      rcases List.mem_append.mp hp with hp | hp
      · obtain ⟨before, hbefore, heq⟩ := exists_run_of_mem hp
        rw [heq]
        exact Nat.ne_of_lt (hearlier _ (List.mem_map_of_mem hbefore) _ List.mem_cons_self)
      · obtain ⟨after, hafter, heq⟩ := exists_run_of_mem hp
        rw [heq]
        exact Nat.ne_of_gt (hlater _ (List.mem_map_of_mem hafter))
  · refine ⟨runs.flatMap parts, [], 0, 0, ?_, ?_⟩
    · rw [List.append_nil]
      exact (List.append_nil _).symm
    · rw [List.append_nil]
      intro p hp heq
      obtain ⟨run, hrun, htick⟩ := exists_run_of_mem hp
      exact ht ⟨run, hrun, htick.symm.trans heq⟩

theorem count_le {l : IdLayout} {ids : List SnowflakeId} {t w n : Nat}
    (h : ids.map l.decode = parts ⟨t, w, n⟩) : n ≤ l.max .sequence + 1 := by
  cases n with
  | zero => exact Nat.zero_le _
  | succ k =>
    have hk : (⟨t, w, k⟩ : IdParts) ∈ ids.map l.decode := by
      rw [h]
      exact List.mem_map.mpr ⟨k, List.mem_range.mpr (Nat.lt_succ_self k), rfl⟩
    obtain ⟨id, -, hid⟩ := List.mem_map.mp hk
    have hfits := (l.fits_decode id).sequence
    rw [hid] at hfits
    exact Nat.succ_le_succ hfits

end TickRun

/-! ### Every run of polls -/

namespace IdSettings

variable {c : IdSettings} {h h' : Option Issued} {r : Reading} {tick : Nat} {id : SnowflakeId}

/-- Whatever is issued follows on the last id. -/
theorem issue_of_advance (e : c.advance h r tick = .ok (.ready id, h')) :
    ∃ s, c.issue tick s r (h.elim 0 Issued.highWater) = .ok (.ready id, h') ∧
      IdParts.Follows (h.map Issued.parts) ⟨tick, r.worker.toNat, s⟩ := by
  unfold advance at e
  split at e
  · exact ⟨0, e, .opens rfl nofun⟩
  next last =>
  split at e
  · exact nomatch e
  split at e
  · next hlt =>
    refine ⟨0, e, .opens rfl ?_⟩
    rintro _ ⟨⟩
    exact hlt
  next hle =>
  split at e
  · exact absurd e defer_ne_ready
  next hw =>
  split at e
  · exact absurd e defer_ne_ready
  next hge =>
  split at e
  · have htick := Nat.le_antisymm (Nat.not_lt.mp hle) (Nat.not_lt.mp hge)
    have hnext : (⟨tick, r.worker.toNat, last.sequence + 1⟩ : IdParts) = last.parts.next := by
      rw [htick, not_not.mp hw]
      rfl
    refine ⟨last.sequence + 1, e, ?_⟩
    rw [hnext]
    exact .continues last.parts
  · exact absurd e defer_ne_ready

end IdSettings

namespace IdGenerator

variable {g : IdGenerator} {r : Reading} {rs : List Reading}

/-- A poll that issues no id remembers what it did; one that does remembers fields that follow. -/
theorem follows_of_poll (g : IdGenerator) (r : Reading) :
    (readyId? (g.poll r).1 = none ∧ (g.poll r).2.history = g.history) ∨
      ∃ id i, readyId? (g.poll r).1 = some id ∧ (g.poll r).2.history = some i ∧
        g.settings.layout.decode id = i.parts ∧
        IdParts.Follows (g.history.map Issued.parts) i.parts := by
  have h := g.polled r
  generalize (g.poll r).1 = a, (g.poll r).2 = g' at h
  cases h with
  | @issued tick id i free tickOf advance =>
    obtain ⟨s, hissue, hfollows⟩ := IdSettings.issue_of_advance advance
    obtain ⟨_, _, ⟨⟩, ⟨⟩, hparts, hencode⟩ := IdSettings.issue_eq_ok hissue
    refine .inr ⟨id, i, rfl, rfl, IdLayout.decode_of_encode hencode, ?_⟩
    rw [hparts]
    exact hfollows
  | overflowed free => exact .inl ⟨rfl, rfl⟩
  | unchanged noId inWords => exact .inl ⟨noId, rfl⟩

theorem after_pollAll (g : IdGenerator) (rs : List Reading) :
    TickRun.After (g.history.map Issued.parts)
      ((issuedIds (g.pollAll rs).1).map g.settings.layout.decode) := by
  induction rs generalizing g with
  | nil =>
    refine ⟨0, [], ?_, .nil, nofun⟩
    rw [TickRun.further_zero]
    rfl
  | cons r rs ih =>
    have hrest := ih (g.poll r).2
    rw [settings_poll] at hrest
    rw [issuedIds_pollAll_cons]
    rcases g.follows_of_poll r with ⟨hid, hhistory⟩ | ⟨id, i, hid, hhistory, hdecode, hfollows⟩
    · rw [hid]
      rw [hhistory] at hrest
      exact hrest
    · rw [hid, Option.toList_some, List.singleton_append, List.map_cons, hdecode]
      rw [hhistory] at hrest
      exact hrest.cons hfollows

/-- A generator remembers the fields of its last id. -/
theorem parts_pollAll (g : IdGenerator) (rs : List Reading) :
    (g.pollAll rs).2.history.map Issued.parts =
      ((issuedIds (g.pollAll rs).1).getLast?.map g.settings.layout.decode).or
        (g.history.map Issued.parts) := by
  induction rs generalizing g with
  | nil => rfl
  | cons r rs ih =>
    rw [pollAll_cons, ih, settings_poll, ← pollAll_cons, issuedIds_pollAll_cons]
    rcases g.follows_of_poll r with ⟨hid, hhistory⟩ | ⟨id, i, hid, hhistory, hdecode, -⟩
    · rw [hid, hhistory]
      rfl
    · rw [hid, hhistory, Option.toList_some, List.singleton_append, List.getLast?_cons,
        Option.map_some, Option.map_some, ← hdecode]
      cases (issuedIds ((g.poll r).2.pollAll rs).1).getLast? with
      | none => rfl
      | some id' => rfl

/-- The latest reading at which an id was issued, if there was one. -/
def mark (g : IdGenerator) : Nat := g.history.elim 0 Issued.highWater

/-- No run leaves a mark above the readings of its ids. -/
theorem mark_pollAll_le {bound : Nat} (hg : g.mark ≤ bound)
    (hrs : ∀ p ∈ g.transcript rs, (readyId? p.2).isSome → p.1.now.toNat ≤ bound) :
    (g.pollAll rs).2.mark ≤ bound := by
  induction rs generalizing g with
  | nil => exact hg
  | cons r rs ih =>
    rw [transcript_cons, List.forall_mem_cons] at hrs
    rw [pollAll_cons]
    refine ih ?_ hrs.2
    unfold mark
    rcases g.highWater_of_poll r with ⟨-, hhistory⟩ | ⟨id, i, hid, hhistory, hmark⟩
    · rw [hhistory]
      exact hg
    · rw [hhistory, Option.elim_some, hmark]
      refine Nat.max_le.mpr ⟨hg, hrs.1 ?_⟩
      rw [hid]
      rfl

/-- A poll finds the worker of the last id in its tick again, with a number left, and the clock not
further behind than the settings allow. -/
structure InLastTick (s : Sharing) (c : IdSettings) (rs : List Reading) (id : SnowflakeId)
    (r : Reading) : Prop where
  last : (issuedIds ((fresh s c).pollAll rs).1).getLast? = some id
  worker : r.worker.toNat = (c.layout.decode id).workerId
  tickOf : c.layout.tickOf r.now = .ok (c.layout.decode id).timestamp
  number : (c.layout.decode id).sequence < c.layout.max .sequence
  near : ∀ p ∈ (fresh s c).transcript rs, (readyId? p.2).isSome →
    p.1.now.toNat ≤ r.now.toNat + c.maxClockDrift.cappedMillis

namespace InLastTick

variable {s : Sharing} {c : IdSettings} {id : SnowflakeId}

theorem exists_issued (h : InLastTick s c rs id r) :
    ∃ last, ((fresh s c).pollAll rs).2.history = some last ∧ last.Consistent c.layout ∧
      last.parts = c.layout.decode id ∧ c.tooFarBehind last r.now = false := by
  obtain ⟨-, hkept⟩ := consistent_pollAll (fresh s c) rs nofun
  have hmark := mark_pollAll_le (Nat.zero_le _) h.near
  have hparts := parts_pollAll (fresh s c) rs
  rw [h.last] at hparts
  obtain ⟨last, hlast, hdecode⟩ := Option.map_eq_some_iff.mp hparts
  have hconsistent := hkept last hlast
  refine ⟨last, hlast, hconsistent, hdecode, ?_⟩
  rw [mark, hlast, Option.elim_some] at hmark
  rw [Bool.eq_false_iff, ne_eq, IdSettings.tooFarBehind_iff hconsistent.word]
  exact Nat.not_lt.mpr hmark

theorem ready (h : InLastTick s c rs id r)
    (hlock : ((fresh s c).pollAll rs).2.poisoned = false) :
    ∃ next, (((fresh s c).pollAll rs).2.poll r).1 = .ok (.ready next) ∧
      c.layout.decode next = (c.layout.decode id).next := by
  obtain ⟨last, hlast, hconsistent, hparts, hnear⟩ := h.exists_issued
  have hset : ((fresh s c).pollAll rs).2.settings = c := settings_pollAll (fresh s c) rs
  have hworker : r.worker.toNat = last.worker := by
    rw [h.worker, ← hparts]
    rfl
  have htick : c.layout.tickOf r.now = .ok last.tick := by
    rw [h.tickOf, ← hparts]
    rfl
  have hnumber : last.sequence < c.layout.max .sequence := by
    have hlt := h.number
    rwa [← hparts] at hlt
  have hfits : c.layout.Fits ⟨last.tick, r.worker.toNat, last.sequence + 1⟩ := by
    rw [hworker]
    exact ⟨hconsistent.fits.timestamp, hconsistent.fits.workerId, hnumber⟩
  obtain ⟨next, i, hissue⟩ := IdSettings.exists_issue last.highWater hfits
  refine ⟨next, ?_, ?_⟩
  · rw [poll_of_tickOf hlock (hset ▸ htick), hset, hlast, IdSettings.advance_of_same hnear hworker,
      if_pos hnumber, hissue]
    rfl
  · obtain ⟨_, _, ⟨⟩, ⟨⟩, hfields, hencode⟩ := IdSettings.issue_eq_ok hissue
    rw [IdLayout.decode_of_encode hencode, hfields, hworker, ← hparts]
    rfl

theorem refused (h : InLastTick s c rs id r)
    (hlock : ((fresh s c).pollAll rs).2.poisoned = true) :
    (((fresh s c).pollAll rs).2.poll r).1 = .error (.error .lockPoisoned) := by
  have hset : ((fresh s c).pollAll rs).2.settings = c := settings_pollAll (fresh s c) rs
  rw [poll_of_poisoned (hset ▸ h.tickOf) hlock]

end InLastTick

/-- The ids of a tick stand together among those of a run, carry one worker, and are numbered from
zero without a gap.  In the last tick its worker has the next number at every poll that is not too
far behind, while there is one; only a lock that was poisoned by an overflow refuses. -/
theorem tick_runs (s : Sharing) (c : IdSettings) (rs : List Reading) :
    (∀ t, ∃ before run after w n,
      issuedIds ((fresh s c).pollAll rs).1 = before ++ run ++ after ∧
      (∀ id ∈ before ++ after, (c.layout.decode id).timestamp ≠ t) ∧
      run.map c.layout.decode = (List.range n).map (fun k => ⟨t, w, k⟩) ∧
      n ≤ c.layout.max .sequence + 1) ∧
    ∀ id r, InLastTick s c rs id r →
      (¬(s = .locked ∧ overflow ∈ ((fresh s c).pollAll rs).1) →
        ∃ next, (((fresh s c).pollAll rs).2.poll r).1 = .ok (.ready next) ∧
          c.layout.decode next = (c.layout.decode id).next) ∧
      (s = .locked ∧ overflow ∈ ((fresh s c).pollAll rs).1 →
        (((fresh s c).pollAll rs).2.poll r).1 = .error (.error .lockPoisoned)) := by
  have hpoisoned : ((fresh s c).pollAll rs).2.poisoned = true ↔
      s = .locked ∧ overflow ∈ ((fresh s c).pollAll rs).1 := by
    rw [poisoned_pollAll_iff]
    exact or_iff_right Bool.false_ne_true
  constructor
  · intro t
    obtain ⟨before, after, w, n, hids, hother⟩ := (after_pollAll (fresh s c) rs).split t
    obtain ⟨upTo, afterIds, heq, hupTo, hafter⟩ := List.map_eq_append_iff.mp hids
    obtain ⟨beforeIds, run, rfl, hbefore, hrun⟩ := List.map_eq_append_iff.mp hupTo
    refine ⟨beforeIds, run, afterIds, w, n, heq, ?_, hrun, TickRun.count_le hrun⟩
    intro id hid
    rw [← hbefore, ← hafter, ← List.map_append] at hother
    exact hother _ (List.mem_map_of_mem hid)
  · intro id r h
    constructor
    · intro hwords
      exact h.ready (Bool.eq_false_iff.mpr fun hlock => hwords (hpoisoned.mp hlock))
    · intro hover
      exact h.refused (hpoisoned.mpr hover)

theorem inLastTick_of_flapping :
    InLastTick .locked { layout := .layout64 } flapping ⟨41947136⟩ ⟨1735689600010, 1⟩ where
  last := by decide +kernel
  worker := by decide +kernel
  tickOf := rfl
  number := by decide +kernel
  near := by decide +kernel

/-- The second worker has to wait for a tick that no word can say, and the first one polls again. -/
theorem inLastTick_of_lastTicks :
    InLastTick .locked lastTicks [⟨18446744073709551615, 1⟩, ⟨18446744073709551615, 2⟩] ⟨16392⟩
      ⟨18446744073709551615, 1⟩ where
  last := by decide +kernel
  worker := by decide +kernel
  tickOf := rfl
  number := by decide +kernel
  near := by decide +kernel

/-- The four ids are runs of the ticks 7, 8 and 10.  In the last one its worker has the next number;
on the lock that an overflow has poisoned it has none. -/
theorem tick_runs_of_flapping :
    (issuedIds ((fresh .locked { layout := .layout64 }).pollAll flapping).1).map
        IdLayout.layout64.decode = [⟨7, 1, 0⟩, ⟨7, 1, 1⟩, ⟨8, 3, 0⟩, ⟨10, 1, 0⟩] ∧
    (∃ next, (((fresh .locked { layout := .layout64 }).pollAll flapping).2.poll
        ⟨1735689600010, 1⟩).1 = .ok (.ready next) ∧
      IdLayout.layout64.decode next = ⟨10, 1, 1⟩) ∧
    (((fresh .locked lastTicks).pollAll
        [⟨18446744073709551615, 1⟩, ⟨18446744073709551615, 2⟩]).2.poll
      ⟨18446744073709551615, 1⟩).1 = .error (.error .lockPoisoned) := by
  have hdecode : IdLayout.layout64.decode ⟨41947136⟩ = ⟨10, 1, 0⟩ := by decide +kernel
  have hwords : overflow ∉ ((fresh .locked { layout := .layout64 }).pollAll flapping).1 := by
    decide +kernel
  have hover : overflow ∈ ((fresh .locked lastTicks).pollAll
      [⟨18446744073709551615, 1⟩, ⟨18446744073709551615, 2⟩]).1 := by
    decide +kernel
  obtain ⟨next, hready, hnext⟩ :=
    ((tick_runs .locked { layout := .layout64 } flapping).2 _ _ inLastTick_of_flapping).1
      fun h => hwords h.2
  refine ⟨by decide +kernel, ⟨next, hready, ?_⟩, ?_⟩
  · rw [hnext, hdecode]
    rfl
  · exact ((tick_runs .locked lastTicks _).2 _ _ inLastTick_of_lastTicks).2 ⟨rfl, hover⟩

/-- So not every poll of the worker in its last tick has the next number. -/
theorem no_next_of_poisoned :
    ¬∀ (s : Sharing) (c : IdSettings) (rs : List Reading) (id : SnowflakeId) (r : Reading),
      InLastTick s c rs id r →
        ∃ next, (((fresh s c).pollAll rs).2.poll r).1 = .ok (.ready next) ∧
          c.layout.decode next = (c.layout.decode id).next := by
  intro h
  obtain ⟨next, hready, -⟩ := h _ _ _ _ _ inLastTick_of_lastTicks
  have hrefused : (((fresh .locked lastTicks).pollAll
      [⟨18446744073709551615, 1⟩, ⟨18446744073709551615, 2⟩]).2.poll
        ⟨18446744073709551615, 1⟩).1 = .error (.error .lockPoisoned) := by
    decide +kernel
  exact nomatch hrefused.symm.trans hready

end IdGenerator
end StoreClient

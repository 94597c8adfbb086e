import StoreClient.Proofs.Ids.Overtaking
import StoreClient.Proofs.Ids.Runs
import StoreClient.Proofs.Ids.Waiting

/-! # When the clock is blamed

The high-water mark of a generator is the largest reading at which it issued an id
(`IdGenerator.highWater_pollAll`), which need not be the last one: within a tick the clock may step
back and ids are still issued.  A poll whose reading has a tick is told that the clock fell behind
exactly when its reading stays below that mark by more than the drift
(`IdGenerator.regression_by_issued`).  Within the drift no poll fails, and the worker has no part in
it. -/

namespace StoreClient

namespace IdSettings

variable {c : IdSettings} {last : Issued} {r : Reading} {tick : Nat}

/-- No further than the last tick, and near enough to the mark, a poll does not fail: it waits, or
takes the next number of the last tick, which fits. -/
theorem advance_ne_error (hlast : last.Consistent c.layout)
    (hnear : c.tooFarBehind last r.now = false) (hle : tick ≤ last.tick) (e : Error) :
    c.advance (some last) r tick ≠ .error (.error e) := by
  intro h
  unfold advance at h
  simp only [hnear, Bool.false_eq_true, if_false, Nat.not_lt.mpr hle] at h
  split at h
  · exact defer_ne_error _ h
  next hw =>
  split at h
  · exact defer_ne_error _ h
  next hge =>
  split at h
  · next hseq =>
    have htick := Nat.le_antisymm hle (Nat.not_lt.mp hge)
    have hfit : c.layout.Fits ⟨tick, r.worker.toNat, last.sequence + 1⟩ := by
      rw [htick, not_not.mp hw]
      exact ⟨hlast.fits.timestamp, hlast.fits.workerId, hseq⟩
    obtain ⟨id, i, hissue⟩ := exists_issue last.highWater hfit
    rw [hissue] at h
    exact nomatch h
  · exact defer_ne_error _ h

end IdSettings

namespace IdGenerator

variable {g : IdGenerator} {r : Reading} {rs : List Reading}

/-! ### The mark of a run -/

/-- The clock readings of the polls that issued an id, in order. -/
def issuedAt (polls : List (Reading × Outcome Poll)) : List Nat :=
  polls.filterMap fun p => (readyId? p.2).map fun _ => p.1.now.toNat

theorem issuedAt_cons_of_none {a : Outcome Poll} (h : readyId? a = none)
    (polls : List (Reading × Outcome Poll)) : issuedAt ((r, a) :: polls) = issuedAt polls := by
  unfold issuedAt
  rw [List.filterMap_cons, h]
  rfl

theorem issuedAt_cons_ready (id : SnowflakeId) (polls : List (Reading × Outcome Poll)) :
    issuedAt ((r, .ok (.ready id)) :: polls) = r.now.toNat :: issuedAt polls := rfl

/-- A run moves the mark up to the largest reading of its ids. -/
theorem highWater_pollAll (g : IdGenerator) (rs : List Reading) :
    (g.pollAll rs).2.history.map Issued.highWater =
      ((g.history.map Issued.highWater).toList ++ issuedAt (g.transcript rs)).max? := by
  induction rs generalizing g with
  | nil =>
    cases hh : g.history with
    | none => simp [pollAll, transcript, issuedAt, hh]
    | some last => simp [pollAll, transcript, issuedAt, hh]
  | cons r rs ih =>
    rw [pollAll_cons, ih, transcript_cons]
    rcases g.highWater_of_poll r with ⟨hid, hhistory⟩ | ⟨id, i, hid, hhistory, hmark⟩
    · rw [hhistory, issuedAt_cons_of_none hid]
    · rw [hid, issuedAt_cons_ready, hhistory, Option.map_some, hmark]
      cases g.history with
      | none => simp
      | some last => rfl

theorem exists_issued_of_max? {s : Sharing} {c : IdSettings} {h : Nat}
    (hmax : (issuedAt ((fresh s c).transcript rs)).max? = some h) :
    ∃ last, ((fresh s c).pollAll rs).2.history = some last ∧ last.highWater = h ∧
      last.Consistent c.layout := by
  have hmark := highWater_pollAll (fresh s c) rs
  obtain ⟨-, hkept⟩ := consistent_pollAll (fresh s c) rs nofun
  have hsome : ((fresh s c).pollAll rs).2.history.map Issued.highWater = some h :=
    hmark.trans hmax
  obtain ⟨last, hlast, hh⟩ := Option.map_eq_some_iff.mp hsome
  exact ⟨last, hlast, hh, hkept last hlast⟩

/-! ### Blame -/

theorem tick_le_of_le_mark {l : IdLayout} {last : Issued} {now : UInt64} {tick : Nat}
    (hlast : last.Consistent l) (htick : l.tickOf now = .ok tick)
    (hle : now.toNat ≤ last.highWater) : tick ≤ last.tick :=
  Nat.le_of_lt_succ (IdLayout.lt_of_tickOf htick (Nat.lt_of_le_of_lt hle hlast.ahead))

theorem le_cappedMillis {m : Nat} {drift : Duration} (hword : m ≤ wordMax)
    (h : (Duration.ofMillis m).nanos ≤ drift.nanos) : m ≤ drift.cappedMillis := by
  refine Nat.le_min.mpr ⟨?_, hword⟩
  exact (Nat.le_div_iff_mul_le (by decide)).mpr h

section
variable {s : Sharing} {c : IdSettings} {tick h : Nat}

theorem poll_eq_regression_iff_of_issued
    (hfree : ((fresh s c).pollAll rs).2.poisoned = false)
    (htick : c.layout.tickOf r.now = .ok tick) (behind : Duration) :
    (((fresh s c).pollAll rs).2.poll r).1 = regression behind ↔
      ∃ h, (issuedAt ((fresh s c).transcript rs)).max? = some h ∧
        r.now.toNat + c.maxClockDrift.cappedMillis < h ∧ behind = .ofMillis (h - r.now.toNat) := by
  have hset : ((fresh s c).pollAll rs).2.settings = c := settings_pollAll (fresh s c) rs
  rw [poll_eq_regression_iff, hset]
  constructor
  · rintro ⟨-, -, last, hlast, hfar, hbehind⟩
    obtain ⟨-, hkept⟩ := consistent_pollAll (fresh s c) rs nofun
    have hdrift := (IdSettings.tooFarBehind_iff (hkept last hlast).word).mp hfar
    have hmark := highWater_pollAll (fresh s c) rs
    rw [hlast] at hmark
    exact ⟨last.highWater, hmark.symm, hdrift, hbehind⟩
  · rintro ⟨h, hmax, hdrift, hbehind⟩
    obtain ⟨last, hlast, rfl, hconsistent⟩ := exists_issued_of_max? hmax
    have hfar := (IdSettings.tooFarBehind_iff hconsistent.word).mpr hdrift
    exact ⟨⟨tick, htick⟩, hfree, last, hlast, hfar, hbehind⟩

/-- A clock that fell behind no further than the drift makes no poll fail. -/
theorem poll_ne_error_of_near (hfree : ((fresh s c).pollAll rs).2.poisoned = false)
    (htick : c.layout.tickOf r.now = .ok tick)
    (hmax : (issuedAt ((fresh s c).transcript rs)).max? = some h) (hle : r.now.toNat ≤ h)
    (hdrift : h ≤ r.now.toNat + c.maxClockDrift.cappedMillis) (e : Error) :
    (((fresh s c).pollAll rs).2.poll r).1 ≠ .error (.error e) := by
  obtain ⟨last, hlast, rfl, hconsistent⟩ := exists_issued_of_max? hmax
  have hset : ((fresh s c).pollAll rs).2.settings = c := settings_pollAll (fresh s c) rs
  have hnear : c.tooFarBehind last r.now = false := by
    rw [Bool.eq_false_iff, ne_eq, IdSettings.tooFarBehind_iff hconsistent.word]
    exact Nat.not_lt.mpr hdrift
  have hbefore := tick_le_of_le_mark hconsistent htick hle
  rw [poll_of_tickOf hfree (hset ▸ htick), hset, hlast]
  cases hadvance : c.advance (some last) r tick with
  | ok answer => exact nofun
  | error failure =>
    rintro ⟨⟩
    exact IdSettings.advance_ne_error hconsistent hnear hbefore e hadvance

end

/-- At a reading that has a tick, and on a lock that no overflow has poisoned, the clock is blamed
exactly when an id was issued at a reading ahead of this one by more than the drift, and for the
distance to the largest such reading.  Within the drift no poll fails; and whoever the worker is,
fitting or not, the clock is blamed alike. -/
theorem regression_by_issued {s : Sharing} {c : IdSettings} {tick : Nat}
    (hwords : s = .locked → overflow ∉ ((fresh s c).pollAll rs).1)
    (htick : c.layout.tickOf r.now = .ok tick) :
    (∀ behind, (((fresh s c).pollAll rs).2.poll r).1 = regression behind ↔
      ∃ h, (issuedAt ((fresh s c).transcript rs)).max? = some h ∧
        r.now.toNat + c.maxClockDrift.cappedMillis < h ∧ behind = .ofMillis (h - r.now.toNat)) ∧
    (∀ h, (issuedAt ((fresh s c).transcript rs)).max? = some h → r.now.toNat ≤ h →
      (Duration.ofMillis (h - r.now.toNat)).nanos ≤ c.maxClockDrift.nanos →
      ∀ e, (((fresh s c).pollAll rs).2.poll r).1 ≠ .error (.error e)) ∧
    ∀ worker behind, (((fresh s c).pollAll rs).2.poll ⟨r.now, worker⟩).1 = regression behind ↔
      (((fresh s c).pollAll rs).2.poll r).1 = regression behind := by
  have hfree : ((fresh s c).pollAll rs).2.poisoned = false := by
    rw [Bool.eq_false_iff, ne_eq, poisoned_pollAll_iff]
    rintro (hlock | ⟨hlocked, hover⟩)
    · exact nomatch hlock
    · exact hwords hlocked hover
  refine ⟨poll_eq_regression_iff_of_issued hfree htick, ?_, ?_⟩
  · intro h hmax hle hdrift e
    have hword : h - r.now.toNat ≤ wordMax := by
      obtain ⟨last, -, rfl, hconsistent⟩ := exists_issued_of_max? hmax
      exact Nat.le_trans (Nat.sub_le _ _) hconsistent.word
    have hcapped := le_cappedMillis hword hdrift
    exact poll_ne_error_of_near hfree htick hmax hle (Nat.sub_le_iff_le_add'.mp hcapped) e
  · intro worker behind
    have hother := poll_eq_regression_iff_of_issued (r := ⟨r.now, worker⟩) hfree htick behind
    exact hother.trans (poll_eq_regression_iff_of_issued hfree htick behind).symm

/-- Ticks of a second, and a drift of a little more than two seconds. -/
def lenient : IdSettings where
  layout := IdLayout.layout52
  maxClockDrift := ⟨2000999999⟩

/-- The clock steps back within a tick, where a second id is issued, and then out of it.  The first
id's reading is what counts, to the millisecond, and also for a worker that does not fit. -/
theorem regression_by_issued_of_lenient :
    issuedAt ((fresh .locked lenient).transcript [⟨1735689605900, 1⟩, ⟨1735689605200, 1⟩]) =
      [1735689605900, 1735689605200] ∧
    (((fresh .locked lenient).pollAll [⟨1735689605900, 1⟩, ⟨1735689605200, 1⟩]).2.poll
      ⟨1735689603899, 77⟩).1 = regression (.ofMillis 2001) ∧
    ∀ e, (((fresh .locked lenient).pollAll [⟨1735689605900, 1⟩, ⟨1735689605200, 1⟩]).2.poll
      ⟨1735689603900, 77⟩).1 ≠ .error (.error e) := by
  have hwords : overflow ∉
      ((fresh .locked lenient).pollAll [⟨1735689605900, 1⟩, ⟨1735689605200, 1⟩]).1 := by
    decide +kernel
  have hissued : issuedAt
      ((fresh .locked lenient).transcript [⟨1735689605900, 1⟩, ⟨1735689605200, 1⟩]) =
        [1735689605900, 1735689605200] := by
    decide +kernel
  have hmax : (issuedAt ((fresh .locked lenient).transcript
      [⟨1735689605900, 1⟩, ⟨1735689605200, 1⟩])).max? = some 1735689605900 := by
    rw [hissued]
    rfl
  have htick : lenient.layout.tickOf 1735689603899 = .ok 3 := rfl
  obtain ⟨hblame, -, -⟩ :=
    regression_by_issued (r := ⟨1735689603899, 77⟩) (fun _ => hwords) htick
  obtain ⟨-, hnear, -⟩ :=
    regression_by_issued (r := ⟨1735689603900, 77⟩) (fun _ => hwords) htick
  refine ⟨hissued, (hblame _).mpr ⟨_, hmax, by decide, rfl⟩, ?_⟩
  exact hnear _ hmax (by decide) (by decide)

end IdGenerator
end StoreClient

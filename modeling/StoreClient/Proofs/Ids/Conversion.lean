import StoreClient.Proofs.Ids.Ticks

/-! # From a reading to an id and back

A clock reading is turned into a tick in whole milliseconds of a word, and an id's tick into an
instant by adding nanoseconds.  The two agree to the millisecond (`IdLayout.conversion_inverts`):
the instant of an id is where the tick of its reading begins, whatever part of a millisecond the
epoch has and wherever in the words the reading lies. -/

namespace StoreClient

namespace Duration

theorem wholeMillis_add_ofMillis (d : Duration) (m : Nat) :
    (⟨d.nanos + (ofMillis m).nanos⟩ : Duration).wholeMillis = d.wholeMillis + m :=
  Nat.add_mul_div_right _ _ (by decide)

theorem add?_ofMillis {d : Duration} {m : Nat} (h : d.wholeMillis + m ≤ wordMax) :
    d.add? (ofMillis m) = some ⟨d.nanos + (ofMillis m).nanos⟩ := by
  unfold add? checked
  refine if_pos (Nat.le_trans (seconds_le_wholeMillis _) ?_)
  rw [wholeMillis_add_ofMillis]
  exact h

end Duration

namespace IdLayout

variable {l : IdLayout} {now : UInt64} {tick : Nat}

theorem epochMillis_eq (hepoch : l.epoch.wholeMillis ≤ wordMax) :
    l.epochMillis = l.epoch.wholeMillis :=
  Nat.min_eq_left hepoch

/-- A reading is refused before the epoch, by how much it is early, and past the last tick. -/
theorem tickOf_eq_error_iff {e : Error} :
    l.tickOf now = .error e ↔
      now.toNat < l.epochMillis ∧
        e = .domain .timestamp ((now.toNat : Int) - l.epochMillis) (l.max .timestamp) ∨
      l.epochMillis ≤ now.toNat ∧
        l.max .timestamp < (now.toNat - l.epochMillis) / l.unit.millisPerTick ∧
        e = .domain .timestamp ↑((now.toNat - l.epochMillis) / l.unit.millisPerTick)
          (l.max .timestamp) := by
  unfold tickOf
  rcases Nat.lt_or_ge now.toNat l.epochMillis with hlt | hle
  · simp only [hlt, if_true, Except.error.injEq, true_and, Nat.not_le.mpr hlt, false_and, or_false]
    exact eq_comm
  · simp only [Nat.not_lt.mpr hle, if_false, false_and, hle, true_and, false_or]
    rcases Nat.lt_or_ge (l.max .timestamp) ((now.toNat - l.epochMillis) / l.unit.millisPerTick)
      with hmax | hmax
    · have hcheck : l.check .timestamp ((now.toNat - l.epochMillis) / l.unit.millisPerTick) =
          .error (.domain .timestamp _ _) :=
        if_neg (Nat.not_le.mpr hmax)
      simp only [hcheck, Except.error.injEq, hmax, true_and]
      exact eq_comm
    · simp only [check_eq_ok_iff.mpr hmax, reduceCtorEq, Nat.not_lt.mpr hmax, false_and]

/-- Later readings have later ticks, or the same. -/
theorem tickOf_mono {later : UInt64} {n : Nat} (hle : now ≤ later) (h : l.tickOf now = .ok tick)
    (hlater : l.tickOf later = .ok n) : tick ≤ n := by
  have hnext := (tickOf_eq_ok_iff.mp hlater).2.1
  have hnow : now.toNat < l.tickStart (n + 1) :=
    Nat.lt_of_le_of_lt (UInt64.le_iff_toNat_le.mp hle) hnext
  exact Nat.le_of_lt_succ (lt_of_tickOf h hnow)

/-- An id has its instant if the beginning of its tick fits a word, and the instant is there. -/
theorem exists_timestampOf {p : IdParts} {id : SnowflakeId} (h : l.encode p = .ok id)
    (hepoch : l.epoch.wholeMillis ≤ wordMax) (hstart : l.tickStart p.timestamp ≤ wordMax) :
    ∃ d, l.timestampOf id = .ok d ∧ d.wholeMillis = l.tickStart p.timestamp := by
  rw [tickStart, epochMillis_eq hepoch] at hstart ⊢
  have hmillis : ¬wordMax < p.timestamp * l.unit.millisPerTick := by omega
  refine ⟨_, ?_, Duration.wholeMillis_add_ofMillis _ _⟩
  unfold timestampOf
  simp only [decode_of_encode h, hmillis, if_false, Duration.add?_ofMillis hstart]

/-- Where the epoch lies within the words, a reading is refused exactly when it is before the epoch
or its tick does not fit; otherwise any id of its tick leads back to the beginning of the tick, at
most one tick before the reading, and from there to the same tick.  Ticks follow the order of their
readings. -/
theorem conversion_inverts (l : IdLayout) (hepoch : l.epoch.wholeMillis ≤ wordMax) :
    (∀ now e, l.tickOf now = .error e ↔
      now.toNat < l.epoch.wholeMillis ∧
        e = .domain .timestamp ((now.toNat : Int) - l.epoch.wholeMillis) (l.max .timestamp) ∨
      l.epoch.wholeMillis ≤ now.toNat ∧
        l.max .timestamp < (now.toNat - l.epoch.wholeMillis) / l.unit.millisPerTick ∧
        e = .domain .timestamp ↑((now.toNat - l.epoch.wholeMillis) / l.unit.millisPerTick)
          (l.max .timestamp)) ∧
    (∀ now t w s, l.tickOf now = .ok t → w ≤ l.max .workerId → s ≤ l.max .sequence →
      ∃ id d, l.encode ⟨t, w, s⟩ = .ok id ∧ l.timestampOf id = .ok d ∧
        d.wholeMillis ≤ now.toNat ∧ now.toNat < d.wholeMillis + l.unit.millisPerTick ∧
        l.tickOf d.wholeMillis.toUInt64 = .ok t) ∧
    ∀ now later t n, now ≤ later → l.tickOf now = .ok t → l.tickOf later = .ok n → t ≤ n := by
  refine ⟨?_, ?_, ?_⟩
  · intro now e
    rw [← epochMillis_eq hepoch]
    exact tickOf_eq_error_iff
  · intro now t w s htick hworker hsequence
    obtain ⟨hstart, hnext, hmax⟩ := tickOf_eq_ok_iff.mp htick
    have hword : l.tickStart t ≤ wordMax := Nat.le_trans hstart (toNat_le_wordMax now)
    have hencode := encode_eq_ok_iff (p := ⟨t, w, s⟩).mpr ⟨⟨hmax, hworker, hsequence⟩, rfl⟩
    obtain ⟨d, hd, hmillis⟩ := exists_timestampOf hencode hepoch hword
    rw [tickStart_succ, ← hmillis] at hnext
    rw [← hmillis] at hstart
    have hagain : d.wholeMillis.toUInt64.toNat = l.tickStart t := by
      rw [hmillis]
      exact UInt64.toNat_ofNat_of_lt' (Nat.lt_succ_of_le hword)
    exact ⟨_, d, hencode, hd, hstart, hnext, tickOf_of_start hagain hmax⟩
  · intro now later t n hle h hlater
    exact tickOf_mono hle h hlater

/-- Seconds from the last second of the words on, and most of a millisecond. -/
def lastSecond : IdLayout :=
  { layout64 with unit := .seconds, epoch := ⟨18446744073709550615999999⟩ }

/-- The largest reading is where the second tick begins, and the one before it is the last of the
first tick; the reading before the epoch is refused. -/
theorem conversion_inverts_of_lastSecond :
    lastSecond.epoch.wholeMillis ≤ wordMax ∧
    (∃ id d, lastSecond.encode ⟨1, 1023, 4095⟩ = .ok id ∧ lastSecond.timestampOf id = .ok d ∧
      d.wholeMillis ≤ 18446744073709551615 ∧ 18446744073709551615 < d.wholeMillis + 1000 ∧
      lastSecond.tickOf d.wholeMillis.toUInt64 = .ok 1) ∧
    (∃ id d, lastSecond.encode ⟨0, 0, 0⟩ = .ok id ∧ lastSecond.timestampOf id = .ok d ∧
      d.wholeMillis ≤ 18446744073709551614 ∧ 18446744073709551614 < d.wholeMillis + 1000 ∧
      lastSecond.tickOf d.wholeMillis.toUInt64 = .ok 0) ∧
    lastSecond.tickOf 18446744073709550614 = .error (.domain .timestamp (-1) 2199023255551) := by
  have hepoch : lastSecond.epoch.wholeMillis ≤ wordMax := by decide
  obtain ⟨hrefused, hinverts, -⟩ := conversion_inverts lastSecond hepoch
  refine ⟨hepoch, ?_, ?_, ?_⟩
  · exact hinverts 18446744073709551615 1 1023 4095 rfl (by decide) (by decide)
  · exact hinverts 18446744073709551614 0 0 0 rfl (by decide) (by decide)
  · exact (hrefused _ _).mpr (.inl ⟨by decide, rfl⟩)

end IdLayout
end StoreClient

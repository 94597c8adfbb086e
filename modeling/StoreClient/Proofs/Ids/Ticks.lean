import StoreClient.Proofs.Ids.Packing

/-! # Ticks and clock readings

A tick begins at `IdLayout.tickStart` and lasts until the next one begins.  `tickOf_eq_ok_iff` says
that a reading is given the tick in which it lies, and `waitFor_eq_ok_iff` that a wait for a tick
that has not begun ends at the very millisecond at which it does. -/

namespace StoreClient

theorem TickUnit.millisPerTick_pos (u : TickUnit) : 0 < u.millisPerTick := by
  cases u <;> decide

namespace IdLayout

variable {l : IdLayout} {now : UInt64} {tick : Nat}

/-- The reading at which a tick begins, in milliseconds since the Unix epoch. -/
def tickStart (l : IdLayout) (tick : Nat) : Nat := l.epochMillis + tick * l.unit.millisPerTick

theorem tickStart_succ (l : IdLayout) (tick : Nat) :
    l.tickStart (tick + 1) = l.tickStart tick + l.unit.millisPerTick := by
  rw [tickStart, tickStart, Nat.succ_mul, Nat.add_assoc]

theorem tickStart_lt_succ (l : IdLayout) (tick : Nat) :
    l.tickStart tick < l.tickStart (tick + 1) := by
  rw [tickStart_succ]
  exact Nat.lt_add_of_pos_right l.unit.millisPerTick_pos

theorem tickStart_mono {a b : Nat} (h : a ≤ b) : l.tickStart a ≤ l.tickStart b :=
  Nat.add_le_add_left (Nat.mul_le_mul_right _ h) _

theorem tickOf_eq_ok_iff :
    l.tickOf now = .ok tick ↔
      l.tickStart tick ≤ now.toNat ∧ now.toNat < l.tickStart (tick + 1) ∧
        tick ≤ l.max .timestamp := by
  have hpos := l.unit.millisPerTick_pos
  have hdiv : l.epochMillis ≤ now.toNat →
      ((now.toNat - l.epochMillis) / l.unit.millisPerTick = tick ↔
        l.tickStart tick ≤ now.toNat ∧ now.toNat < l.tickStart (tick + 1)) := by
    intro hle
    rw [Nat.div_eq_iff hpos, tickStart, tickStart, Nat.succ_mul]
    omega
  unfold tickOf
  split
  · next hlt =>
    have : ¬ l.tickStart tick ≤ now.toNat := fun h =>
      absurd (Nat.le_trans (Nat.le_add_right _ _) h) (Nat.not_le.mpr hlt)
    simp [this]
  · next hle =>
    have hle := Nat.not_lt.mp hle
    rw [← and_assoc, ← hdiv hle]
    constructor
    · intro h
      dsimp only at h
      split at h
      · next hc =>
        obtain rfl := Except.ok.inj h
        exact ⟨rfl, check_eq_ok_iff.mp hc⟩
      · exact nomatch h
    · rintro ⟨rfl, hmax⟩
      simp only [check_eq_ok_iff.mpr hmax]

theorem lt_of_tickOf {n : Nat} (h : l.tickOf now = .ok tick) (hn : now.toNat < l.tickStart n) :
    tick < n := by
  have hstart := (tickOf_eq_ok_iff.mp h).1
  by_contra hle
  have := l.tickStart_mono (Nat.not_lt.mp hle)
  omega

theorem tickOf_of_start {again : UInt64} (hagain : again.toNat = l.tickStart tick)
    (hmax : tick ≤ l.max .timestamp) : l.tickOf again = .ok tick := by
  refine tickOf_eq_ok_iff.mpr ⟨Nat.le_of_eq hagain.symm, ?_, hmax⟩
  rw [hagain]
  exact l.tickStart_lt_succ tick

theorem eq_of_tickOf_start {again : UInt64} {n : Nat} (hagain : again.toNat = l.tickStart tick)
    (h : l.tickOf again = .ok n) : n = tick := by
  obtain ⟨hstart, hnext, -⟩ := tickOf_eq_ok_iff.mp h
  rw [hagain] at hstart hnext
  rcases Nat.lt_trichotomy n tick with hlt | heq | hlt
  · exact absurd hnext (Nat.not_lt.mpr (l.tickStart_mono hlt))
  · exact heq
  · have := Nat.lt_of_lt_of_le (l.tickStart_lt_succ tick) (l.tickStart_mono hlt)
    omega

/-- Before a tick, the wait for it ends when it begins, if a word can show that moment. -/
theorem waitFor_eq_ok_iff {d : Duration} (h : now.toNat < l.tickStart tick) :
    l.waitFor tick now = .ok d ↔
      l.tickStart tick ≤ wordMax ∧ d = .ofMillis (l.tickStart tick - now.toNat) := by
  have hmax : Nat.max (l.tickStart tick - now.toNat) 1 = l.tickStart tick - now.toNat :=
    Nat.max_eq_left (Nat.sub_pos_of_lt h)
  have hwait : l.waitFor tick now = if wordMax < l.tickStart tick then .error (.panic .arithmetic)
      else .ok (.ofMillis (Nat.max (l.tickStart tick - now.toNat) 1)) := rfl
  rw [hwait, hmax]
  split
  · next hlt => simp [Nat.not_le.mpr hlt]
  · next hle => simp [Nat.not_lt.mp hle, eq_comm]

theorem waitFor_of_wordMax_lt (h : wordMax < l.tickStart tick) :
    l.waitFor tick now = .error (.panic .arithmetic) :=
  if_pos h

end IdLayout
end StoreClient

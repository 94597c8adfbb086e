import StoreClient.Ids.Generator

/-! # Waiting for an id

`settle` polls until a poll is not pending.  Before each pause it asks whether the wait was
cancelled, and then whether it has lasted as long as the settings allow; cancelling wins. -/

namespace StoreClient

/-- Why a wait ends before the next pause, if it does. -/
def IdSettings.giveUp? (c : IdSettings) (cancelled : Bool) (waited : Duration) : Option Error :=
  if cancelled then some .interrupted
  else if c.maxWait.nanos ≤ waited.nanos then some (.waitTimeout waited)
  else none

/-- Polls until an id or a failure is there, in a world `σ` that every poll may change.
`waited n` is how long the wait has lasted at its round `n`; no answer means that `fuel` polls were
all pending and the wait was still allowed. -/
def settle {σ : Type} (c : IdSettings) (poll : σ → Outcome Poll × σ) (cancelled : σ → Bool)
    (waited : Nat → Duration) : (fuel round : Nat) → σ → Option (Outcome SnowflakeId) × σ
  | 0, _, s => (none, s)
  | fuel + 1, round, s =>
    match poll s with
    | (.error e, s) => (some (.error e), s)
    | (.ok (.ready id), s) => (some (.ok id), s)
    | (.ok (.pending _), s) =>
      match c.giveUp? (cancelled s) (waited round) with
      | some e => (some (.error (.error e)), s)
      | none => settle c poll cancelled waited fuel (round + 1) s

/-- The time waited when every round pauses equally long. -/
def evenly (pause : Duration) (round : Nat) : Duration := ⟨round * pause.nanos⟩

/-- Enough rounds of a pause to wait as long as the settings allow. -/
def IdSettings.rounds (c : IdSettings) (pause : Duration) : Nat :=
  c.maxWait.nanos / pause.nanos + 2

/-- Waits that last long enough end. -/
theorem settle_isSome {σ : Type} {c : IdSettings} {poll : σ → Outcome Poll × σ}
    {cancelled : σ → Bool} {waited : Nat → Duration} {fuel round : Nat} {s : σ}
    (h : ∃ n, n < fuel ∧ c.maxWait.nanos ≤ (waited (round + n)).nanos) :
    (settle c poll cancelled waited fuel round s).1.isSome := by
  induction fuel generalizing round s with
  | zero => obtain ⟨n, hn, _⟩ := h; exact absurd hn (Nat.not_lt_zero n)
  | succ fuel ih =>
    simp only [settle]
    split
    · rfl
    · rfl
    · next s' _ =>
      obtain ⟨n, hn, hw⟩ := h
      cases hg : c.giveUp? (cancelled s') (waited round) with
      | some e => rfl
      | none =>
        apply ih
        cases n with
        | zero =>
          have : c.giveUp? (cancelled s') (waited round) ≠ none := by
            simp only [IdSettings.giveUp?]
            split
            · simp
            · rw [Nat.add_zero] at hw
              simp [hw]
          exact absurd hg this
        | succ n => exact ⟨n, by omega, by rwa [Nat.add_right_comm, Nat.add_assoc]⟩

theorem settle_evenly_isSome {σ : Type} {c : IdSettings} {poll : σ → Outcome Poll × σ}
    {cancelled : σ → Bool} {pause : Duration} (h : 0 < pause.nanos) (s : σ) :
    (settle c poll cancelled (evenly pause) (c.rounds pause) 0 s).1.isSome := by
  refine settle_isSome ⟨c.maxWait.nanos / pause.nanos + 1, Nat.lt_succ_self _, ?_⟩
  simp only [evenly, Nat.zero_add]
  exact Nat.le_of_lt (Nat.lt_mul_of_div_lt (Nat.lt_succ_self _) h)

end StoreClient

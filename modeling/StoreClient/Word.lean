/-! # Machine words

Lengths, offsets, clock readings and counters are natural numbers; the operations whose result a
64-bit word may not hold compare it with `wordMax`.  An array in memory holds half as much: its
size is a signed word, at most `arrayMax`. -/

namespace StoreClient

/-- The largest unsigned 64-bit word. -/
def wordMax : Nat := 18446744073709551615

/-- The most bytes that one array can hold. -/
def arrayMax : Nat := 9223372036854775807

/-- The sum, unless a 64-bit word cannot hold it. -/
def checkedAdd (a b : Nat) : Option Nat := if a + b ≤ wordMax then some (a + b) else none

/-- The difference, unless a word cannot hold it. -/
def checkedSub (a b : Nat) : Option Nat := if b ≤ a then some (a - b) else none

/-- The product, unless a 64-bit word cannot hold it. -/
def checkedMul (a b : Nat) : Option Nat := if a * b ≤ wordMax then some (a * b) else none

/-- The sum, stopped at `wordMax`. -/
def saturatingAdd (a b : Nat) : Nat := min (a + b) wordMax

theorem wordMax_eq : wordMax + 1 = Nat.pow 2 64 := by decide

theorem toNat_le_wordMax (x : UInt64) : x.toNat ≤ wordMax :=
  Nat.le_of_lt_succ x.toNat_lt

theorem checkedAdd_eq_some_iff {a b c : Nat} :
    checkedAdd a b = some c ↔ a + b = c ∧ c ≤ wordMax := by
  simp only [checkedAdd, Option.ite_none_right_eq_some, Option.some.injEq]
  exact ⟨fun ⟨h, e⟩ => ⟨e, e ▸ h⟩, fun ⟨e, h⟩ => ⟨e ▸ h, e⟩⟩

theorem checkedAdd_of_le {a b : Nat} (h : a + b ≤ wordMax) : checkedAdd a b = some (a + b) :=
  if_pos h

theorem checkedSub_of_le {a b : Nat} (h : b ≤ a) : checkedSub a b = some (a - b) := if_pos h

end StoreClient

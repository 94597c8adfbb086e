/-! # Byte strings

A byte string is a list of bytes.  `Bytes.window` cuts a range out of one, `Bytes.ofAscii` writes an
ASCII text, `Bytes.compare` is the unsigned lexicographic order in which a proper prefix comes
first, `Bytes.compareFront` the same as far as the shorter of two byte strings reaches, and
`Bytes.blocks` cuts a byte string into full blocks and a shorter rest. -/

namespace StoreClient

/-- A byte string. -/
abbrev Bytes := List UInt8

namespace Bytes

/-- The bytes at positions `start ≤ i < stop`. -/
def window (bs : Bytes) (start stop : Nat) : Bytes := (bs.drop start).take (stop - start)

/-- One byte for each character of an ASCII text. -/
def ofAscii (cs : List Char) : Bytes := cs.map fun c => c.toNat.toUInt8

/-- Unsigned lexicographic order; a proper prefix comes first. -/
def compare : Bytes → Bytes → Ordering
  | [], [] => .eq
  | [], _ :: _ => .lt
  | _ :: _, [] => .gt
  | a :: as, b :: bs => if a < b then .lt else if b < a then .gt else compare as bs

/-- The order as far as the shorter byte string reaches, and what was not read of the two. -/
def compareFront : Bytes → Bytes → Ordering × Bytes × Bytes
  | a :: as, b :: bs =>
    if a < b then (.lt, as, bs) else if b < a then (.gt, as, bs) else compareFront as bs
  | as, bs => (.eq, as, bs)

/-- The blocks of `size` bytes at the front, and the bytes too few for another block. -/
def blocks (size : Nat) (positive : 0 < size) (bs : Bytes) : List Bytes × Bytes :=
  let block := bs.take size
  if block.length < size then ([], bs)
  else
    let (full, rest) := blocks size positive (bs.drop size)
    (block :: full, rest)
termination_by bs.length
decreasing_by
  simp only [block, List.length_take, List.length_drop] at *
  omega

theorem length_window (bs : Bytes) (start stop : Nat) :
    (bs.window start stop).length = min (stop - start) (bs.length - start) := by
  simp [window]

theorem length_window_of_le {bs : Bytes} {start stop : Nat} (h : stop ≤ bs.length) :
    (bs.window start stop).length = stop - start := by
  rw [length_window]; omega

@[simp] theorem window_zero_length (bs : Bytes) : bs.window 0 bs.length = bs := by
  simp [window]

theorem window_window (bs : Bytes) {start stop a b : Nat} (h : start + b ≤ stop) :
    (bs.window start stop).window a b = bs.window (start + a) (start + b) := by
  simp only [window, List.drop_take, List.drop_drop, List.take_take]
  congr 1
  omega

theorem compare_eq_iff {a b : Bytes} : compare a b = .eq ↔ a = b := by
  fun_induction compare a b with
  | case1 => simp
  | case2 => simp
  | case3 => simp
  | case4 a as b bs h => simp [UInt8.ne_of_lt h]
  | case5 a as b bs _ h => simp [(UInt8.ne_of_lt h).symm]
  | case6 a as b bs h h' ih =>
    have : a = b := UInt8.le_antisymm (UInt8.not_lt.mp h') (UInt8.not_lt.mp h)
    simp [this, ih]

theorem length_compareFront_le (as bs : Bytes) :
    (compareFront as bs).2.1.length ≤ as.length ∧ (compareFront as bs).2.2.length ≤ bs.length := by
  fun_induction compareFront as bs with
  | case1 => exact ⟨Nat.le_succ _, Nat.le_succ _⟩
  | case2 => exact ⟨Nat.le_succ _, Nat.le_succ _⟩
  | case3 a as b bs h h' ih => exact ⟨Nat.le_succ_of_le ih.1, Nat.le_succ_of_le ih.2⟩
  | case4 => exact ⟨Nat.le_refl _, Nat.le_refl _⟩

theorem length_compareFront_lt {as bs : Bytes} (ha : as ≠ []) (hb : bs ≠ []) :
    (compareFront as bs).2.1.length + (compareFront as bs).2.2.length < as.length + bs.length := by
  obtain ⟨x, xs, rfl⟩ := List.exists_cons_of_ne_nil ha
  obtain ⟨y, ys, rfl⟩ := List.exists_cons_of_ne_nil hb
  have := length_compareFront_le xs ys
  rw [compareFront]
  split
  · simp only [List.length_cons]
    omega
  split
  · simp only [List.length_cons]
    omega
  · simp only [List.length_cons]
    omega

end Bytes
end StoreClient

import StoreClient.Proofs.ByteSeq.Content
import StoreClient.Proofs.Decimal.Numerals
import StoreClient.Wire.Table

/-! # The table of small integers

The text of a table is the numerals from zero on, one after another, and its stops are the lengths
of the texts of the first one, two and more of them (`WireTable.stops_ofBound`).  So each view is
cut where its numeral stands (`WireTable.window_numerals`), a number past the bound is written when
it is asked for, and what a table answers does not show its bound (`WireTable.cache_agrees`). -/

namespace StoreClient.WireTable

open Decimal

/-- The first numerals, one after another. -/
def numerals (count : Nat) : List Char := (List.range count).flatMap Decimal.digits

theorem numerals_succ (n : Nat) : numerals (n + 1) = numerals n ++ Decimal.digits n := by
  rw [numerals, List.range_succ, List.flatMap_append, List.flatMap_singleton, numerals]

theorem numerals_prefix {m n : Nat} (h : m ≤ n) : numerals m <+: numerals n := by
  induction n, h using Nat.le_induction with
  | base => exact List.prefix_rfl
  | succ n _ ih => exact ih.trans (numerals_succ n ▸ List.prefix_append _ _)

theorem stopsAfter_concat (stops : Array Nat) (lengths : List Nat) (length : Nat) :
    stopsAfter stops (lengths ++ [length]) =
      (stopsAfter stops lengths).push ((stopsAfter stops lengths).back?.getD 0 + length) := by
  rw [stopsAfter, List.foldl_append]
  rfl

/-- A numeral stops where the text of all numerals up to it ends. -/
theorem stopsAfter_numerals (count : Nat) :
    stopsAfter #[] (((List.range count).map Decimal.digits).map List.length) =
      ((List.range count).map fun n => (numerals (n + 1)).length).toArray := by
  induction count with
  | zero => rfl
  | succ count ih =>
    have hback : ((List.range count).map fun n => (numerals (n + 1)).length).toArray.back?.getD 0 =
        (numerals count).length := by
      cases count with
      | zero => rfl
      | succ k => simp [List.range_succ]
    rw [List.range_succ, List.map_append, List.map_append, List.map_singleton, List.map_singleton,
      stopsAfter_concat, ih, hback, List.push_toArray, List.map_append, List.map_singleton,
      numerals_succ count, List.length_append]

section
variable (bound : Nat)

theorem stops_ofBound : (ofBound bound).stops =
    ((List.range (min bound maxBound + 1)).map fun n => (numerals (n + 1)).length).toArray :=
  stopsAfter_numerals _

theorem digits_ofBound : (ofBound bound).digits = .ofAscii (numerals (min bound maxBound + 1)) := by
  rw [numerals, List.flatMap_def]
  rfl

theorem bound_ofBound : (ofBound bound).bound = min bound maxBound := by
  rw [WireTable.bound, stops_ofBound, List.size_toArray, List.length_map, List.length_range,
    Nat.add_sub_cancel]

end

theorem window_numerals {n count : Nat} (h : n < count) :
    (Bytes.ofAscii (numerals count)).window (numerals n).length (numerals (n + 1)).length =
      .ofAscii (Decimal.digits n) := by
  obtain ⟨rest, hrest⟩ := numerals_prefix (Nat.succ_le_of_lt h)
  have hprefix : Bytes.ofAscii (Decimal.digits n) <+:
      (Bytes.ofAscii (numerals count)).drop (numerals n).length := by
    refine ⟨Bytes.ofAscii rest, ?_⟩
    rw [← hrest, numerals_succ, List.append_assoc, Bytes.ofAscii, Bytes.ofAscii, Bytes.ofAscii,
      List.map_append, List.map_append, List.drop_left' (List.length_map _)]
  have hlength : (numerals (n + 1)).length =
      (numerals n).length + (Bytes.ofAscii (Decimal.digits n)).length := by
    rw [numerals_succ, List.length_append, Bytes.ofAscii, List.length_map]
  rw [hlength, ← Bytes.eq_window_of_prefix hprefix]

theorem getElem?_stops (bound i : Nat) : (ofBound bound).stops[i]? =
    if i ≤ min bound maxBound then some (numerals (i + 1)).length else none := by
  rw [stops_ofBound, List.getElem?_toArray, List.getElem?_map]
  split
  · next h => rw [List.getElem?_range (Nat.lt_succ_of_le h), Option.map_some]
  · next h => rw [List.getElem?_eq_none (by rw [List.length_range]; omega), Option.map_none]

/-- The view of a number that the table has lies between the stop before it and its own. -/
theorem cached?_eq_window (bound n : Nat) :
    (ofBound bound).cached? n = if n ≤ min bound maxBound then
      some ((ofBound bound).digits.window (numerals n).length (numerals (n + 1)).length)
    else none := by
  rw [cached?, getElem?_stops]
  by_cases h : n ≤ min bound maxBound
  · have hstart : (if n = 0 then 0 else (ofBound bound).stops.getD (n - 1) 0) =
        (numerals n).length := by
      cases n with
      | zero => rfl
      | succ k =>
        rw [if_neg (Nat.succ_ne_zero k), Nat.add_sub_cancel, Array.getD_eq_getD_getElem?,
          getElem?_stops, if_pos (Nat.le_of_succ_le h), Option.getD_some]
    rw [if_pos h, if_pos h, Option.map_some, hstart]
  · rw [if_neg h, if_neg h, Option.map_none]

theorem cached?_eq (bound n : Nat) : (ofBound bound).cached? n =
    if n ≤ min bound maxBound then some (.ofAscii (Decimal.digits n)) else none := by
  rw [cached?_eq_window, digits_ofBound]
  split
  · next h => rw [window_numerals (Nat.lt_succ_of_le h)]
  · rfl

theorem unsigned_eq (bound n : Nat) :
    (ofBound bound).unsigned n = .array (.ofAscii (Decimal.digits n)) := by
  rw [unsigned, cached?_eq]
  split
  · rfl
  · rfl

theorem integer_eq (bound : Nat) (z : Int) :
    (ofBound bound).integer z = .array (.ofAscii (ofInt z)) := by
  unfold integer ofInt
  split
  · next h => rfl
  · exact unsigned_eq bound z.natAbs

/-- A table has one text with the numerals of all its numbers, and the view of each number is cut
where its numeral stands; no table has a number past its bound.  Every table, whatever its bound,
writes a number as its one canonical text. -/
theorem cache_agrees :
    (∀ bound : Nat,
      (ofBound bound).bound = min bound 65535 ∧
      (ofBound bound).digits = .ofAscii (numerals (min bound 65535 + 1)) ∧
      ∀ n, ((ofBound bound).cached? n = if n ≤ min bound 65535 then
          some ((ofBound bound).digits.window (numerals n).length (numerals (n + 1)).length)
        else none) ∧
        (ofBound bound).cached? n =
          if n ≤ min bound 65535 then some (.ofAscii (Decimal.digits n)) else none) ∧
    (∀ n : Nat, ∃ cs, (∀ text, Decimal.Numeral n text ↔ text = cs) ∧
      ∀ bound, (ofBound bound).unsigned n = .array (.ofAscii cs)) ∧
    ∀ z : Int, ∃ cs, (∀ text, Decimal.Written z text ↔ text = cs) ∧
      ∀ bound, (ofBound bound).integer z = .array (.ofAscii cs) := by
  refine ⟨?_, ?_, ?_⟩
  · intro bound
    exact ⟨bound_ofBound bound, digits_ofBound bound,
      fun n => ⟨cached?_eq_window bound n, cached?_eq bound n⟩⟩
  · intro n
    exact ⟨Decimal.digits n, fun _ => numeral_iff, fun bound => unsigned_eq bound n⟩
  · intro z
    exact ⟨ofInt z, fun _ => written_iff, fun bound => integer_eq bound z⟩

end StoreClient.WireTable

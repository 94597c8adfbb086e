import StoreClient.Charset.Decoder
import Mathlib.Data.List.Basic

/-! # Where a scan may be cut

`Utf8.scan` reads a byte string as the lossy scan does, but leaves the beginning of a unit at the
end unread: it returns the text that no later byte can change, and those bytes.  A scan may be cut
anywhere if what was left unread is joined with what follows (`Utf8.scan_append`), and the one-shot
text is the settled text with one U+FFFD for what is left (`Utf8.decode_eq_scan`).

`Utf16.run` does the same with units: it holds back a high surrogate.  Bytes may be cut into units
anywhere if the odd byte is joined with what follows (`Utf16.units_append`). -/

namespace StoreClient

/-- What the end of the input makes of bytes left unread. -/
def leftover (bs : Bytes) : List Char := if bs.isEmpty then [] else [replacement]

namespace Utf8

/-! ### UTF-8 -/

theorem append_spanFit (rs : List Range) (bs : Bytes) :
    (spanFit rs bs).1 ++ (spanFit rs bs).2 = bs := by
  fun_induction spanFit rs bs with
  | case1 r rs b bs h ih =>
    rw [List.cons_append, ih]
  | case2 r rs b bs h => rfl
  | case3 rs bs h => rfl

theorem length_spanFit_fst_le (rs : List Range) (bs : Bytes) :
    (spanFit rs bs).1.length ≤ rs.length := by
  fun_induction spanFit rs bs with
  | case1 r rs b bs h ih => exact Nat.succ_le_succ ih
  | case2 r rs b bs h => exact Nat.zero_le _
  | case3 rs bs h => exact Nat.zero_le _

/-- Bytes that follow are not looked at once all ranges are filled or a byte did not fit. -/
theorem spanFit_append {rs : List Range} {bs : Bytes} (more : Bytes)
    (h : (spanFit rs bs).1.length = rs.length ∨ (spanFit rs bs).2 ≠ []) :
    spanFit rs (bs ++ more) = ((spanFit rs bs).1, (spanFit rs bs).2 ++ more) := by
  fun_induction spanFit rs bs with
  | case1 r rs b bs hb ih =>
    have h' : (spanFit rs bs).1.length = rs.length ∨ (spanFit rs bs).2 ≠ [] := by
      simpa using h
    rw [List.cons_append, spanFit, if_pos hb, ih h']
  | case2 r rs b bs hb =>
    rw [List.cons_append, spanFit, if_neg hb]
  | case3 rs bs hrs =>
    cases rs with
    | nil => rfl
    | cons r rs =>
      cases bs with
      | nil => simp at h
      | cons b bs => exact absurd rfl (hrs r rs b bs rfl)

theorem unfilled_spanFit (rs : List Range) (bs : Bytes) :
    unfilled rs (spanFit rs bs).1 = some (rs.drop (spanFit rs bs).1.length) := by
  fun_induction spanFit rs bs with
  | case1 r rs b bs hb ih =>
    rw [unfilled, if_pos hb, ih]
    rfl
  | case2 r rs b bs hb => rfl
  | case3 rs bs h => cases rs <;> rfl

/-- The text that a scan settles, and the beginning of a unit that it leaves at the end. -/
def scan : Bytes → List Char × Bytes
  | [] => ([], [])
  | b :: bs =>
    match followers b with
    | none => (replacement :: (scan bs).1, (scan bs).2)
    | some rs =>
      let begun := (spanFit rs bs).1
      let rest := (spanFit rs bs).2
      if begun.length = rs.length then (charOf (b :: begun) :: (scan rest).1, (scan rest).2)
      else if rest.isEmpty then ([], b :: begun)
      else (replacement :: (scan rest).1, (scan rest).2)
termination_by bs => bs.length
decreasing_by
  · simp
  all_goals
    have := length_spanFit_snd_le rs bs
    simp only [List.length_cons]
    omega

@[simp] theorem scan_nil : scan [] = ([], []) := by
  rw [scan]

theorem scan_of_none {b : UInt8} (bs : Bytes) (h : followers b = none) :
    scan (b :: bs) = (replacement :: (scan bs).1, (scan bs).2) := by
  rw [scan, h]

theorem scan_of_unit {b : UInt8} {bs : Bytes} {rs : List Range} (h : followers b = some rs)
    (full : (spanFit rs bs).1.length = rs.length) :
    scan (b :: bs) = (charOf (b :: (spanFit rs bs).1) :: (scan (spanFit rs bs).2).1,
      (scan (spanFit rs bs).2).2) := by
  rw [scan, h]
  simp only [full, if_true]

theorem scan_of_broken {b : UInt8} {bs : Bytes} {rs : List Range} (h : followers b = some rs)
    (part : (spanFit rs bs).1.length ≠ rs.length) (hr : (spanFit rs bs).2 ≠ []) :
    scan (b :: bs) = (replacement :: (scan (spanFit rs bs).2).1, (scan (spanFit rs bs).2).2) := by
  rw [scan, h]
  simp only [part, if_false, List.isEmpty_iff, hr]

/-- A scan may be cut anywhere, if what it leaves is joined with what follows. -/
theorem scan_append (a b : Bytes) :
    scan (a ++ b) =
      ((scan a).1 ++ (scan ((scan a).2 ++ b)).1, (scan ((scan a).2 ++ b)).2) := by
  fun_induction scan a with
  | case1 => rfl
  | case2 x bs h ih =>
    rw [List.cons_append, scan_of_none _ h, ih]
    rfl
  | case3 x bs rs h begun rest full ih =>
    have e := spanFit_append b (Or.inl full)
    rw [List.cons_append, scan_of_unit h (by rw [e]; exact full), e, ih]
    rfl
  | case4 x bs rs h begun rest part done =>
    -- the beginning of a unit is all of `bs`, so nothing is settled yet
    have e : begun = bs := by
      have := append_spanFit rs bs
      rwa [show (spanFit rs bs).2 = [] from List.isEmpty_iff.mp done, List.append_nil] at this
    rw [e]
    rfl
  | case5 x bs rs h begun rest part more ih =>
    have hr : rest ≠ [] := fun hn => more (List.isEmpty_iff.mpr hn)
    have e := spanFit_append b (Or.inr hr)
    have hr' : (spanFit rs (bs ++ b)).2 ≠ [] := by
      rw [e]
      exact List.append_ne_nil_of_left_ne_nil hr b
    rw [List.cons_append, scan_of_broken h (by rw [e]; exact part) hr', e, ih]
    rfl

/-! ### The pieces of a scan -/

theorem pieces_of_none {b : UInt8} (bs : Bytes) (h : followers b = none) :
    pieces (b :: bs) = ⟨[], [b]⟩ :: pieces bs := by
  rw [pieces, h]

theorem pieces_of_unit {b : UInt8} {bs : Bytes} {rs : List Range} (h : followers b = some rs)
    (full : (spanFit rs bs).1.length = rs.length) :
    pieces (b :: bs) = Piece.cons (charOf (b :: (spanFit rs bs).1)) (pieces (spanFit rs bs).2) := by
  rw [pieces, h]
  simp only [full, if_true]

theorem pieces_of_part {b : UInt8} {bs : Bytes} {rs : List Range} (h : followers b = some rs)
    (part : (spanFit rs bs).1.length ≠ rs.length) :
    pieces (b :: bs) = ⟨[], b :: (spanFit rs bs).1⟩ :: pieces (spanFit rs bs).2 := by
  rw [pieces, h]
  simp only [part, if_false]

@[simp] theorem pieces_eq_nil_iff {bs : Bytes} : pieces bs = [] ↔ bs = [] := by
  fun_cases pieces bs with
  | case1 => simp
  | case2 b bs h => simp
  | case3 b bs rs h begun rest full =>
    cases pieces rest <;> simp [Piece.cons]
  | case4 b bs rs h begun rest part => simp

theorem truncated_of_none {b : UInt8} (h : followers b = none) :
    Piece.truncated ⟨[], [b]⟩ = false := by
  simp [Piece.truncated, missing, h]

/-- A lead byte with followers that fit is the beginning of a unit as long as ranges are open. -/
theorem truncated_of_part {b : UInt8} {bs : Bytes} {rs : List Range} (h : followers b = some rs)
    (part : (spanFit rs bs).1.length ≠ rs.length) :
    Piece.truncated ⟨[], b :: (spanFit rs bs).1⟩ = true := by
  have hl := length_spanFit_fst_le rs bs
  have hd : rs.drop (spanFit rs bs).1.length ≠ [] := by
    rw [ne_eq, List.drop_eq_nil_iff]
    omega
  obtain ⟨r, rs', hrs⟩ := List.exists_cons_of_ne_nil hd
  have hm : missing (b :: (spanFit rs bs).1) = some (r :: rs') := by
    rw [missing, h, Option.bind_some, unfilled_spanFit, hrs]
  rw [Piece.truncated, hm]

theorem flatMap_text_cons (ch : Char) (ps : List Piece) :
    (Piece.cons ch ps).flatMap Piece.text = ch :: ps.flatMap Piece.text := by
  cases ps <;> rfl

theorem decode_eq_scan (bs : Bytes) : decode bs = (scan bs).1 ++ leftover (scan bs).2 := by
  unfold decode
  fun_induction scan bs with
  | case1 =>
    rw [pieces]
    rfl
  | case2 b bs h ih =>
    rw [pieces_of_none bs h, List.flatMap_cons, ih]
    rfl
  | case3 b bs rs h begun rest full ih =>
    rw [pieces_of_unit h full, flatMap_text_cons, ih]
    rfl
  | case4 b bs rs h begun rest part done =>
    have hr : (spanFit rs bs).2 = [] := List.isEmpty_iff.mp done
    rw [pieces_of_part h part, hr, pieces_eq_nil_iff.mpr rfl]
    rfl
  | case5 b bs rs h begun rest part more ih =>
    rw [pieces_of_part h part, List.flatMap_cons, ih]
    rfl

end Utf8

namespace Utf16

/-! ### UTF-16 -/

section
variable (order : ByteOrder)

/-- Bytes may be cut into units anywhere, if the odd byte is joined with what follows. -/
theorem units_append (a b : Bytes) :
    units order (a ++ b) =
      ((units order a).1 ++ (units order ((units order a).2 ++ b)).1,
        (units order ((units order a).2 ++ b)).2) := by
  fun_induction units order a with
  | case1 x y bs ih =>
    rw [List.cons_append, List.cons_append, units, ih]
    rfl
  | case2 odd h => rfl

theorem length_units_snd_le (bs : Bytes) : (units order bs).2.length ≤ 1 := by
  fun_induction units order bs with
  | case1 a b bs ih => exact ih
  | case2 odd h =>
    match odd, h with
    | [], _ => simp
    | [x], _ => simp
    | x :: y :: bs, h => exact absurd rfl (h x y bs)

end

/-- Reads units one by one: what is held back in the end, and the text that is settled. -/
def run (held : Option UInt16) : List UInt16 → Option UInt16 × List Char
  | [] => (held, [])
  | u :: us =>
    let (next, out) := feed held u
    ((run next us).1, out ++ (run next us).2)

theorem run_append (held : Option UInt16) (us vs : List UInt16) :
    run held (us ++ vs) =
      ((run (run held us).1 vs).1, (run held us).2 ++ (run (run held us).1 vs).2) := by
  induction us generalizing held with
  | nil => rfl
  | cons u us ih =>
    simp only [List.cons_append, run, ih, List.append_assoc]

/-- What the end of the input makes of what is held back. -/
def unpaired (held : Option UInt16) : List Char := if held.isSome then [replacement] else []

/-- Only a high surrogate is ever held back. -/
theorem isHigh_of_feed {held : Option UInt16} {u h : UInt16} (hf : (feed held u).1 = some h) :
    isHigh h = true := by
  have hs : (start u).1 = some h → isHigh h = true := by
    intro e
    unfold start at e
    split at e
    · next hu =>
      rw [← Option.some.inj e]
      exact hu
    · simp at e
  cases held with
  | none => exact hs hf
  | some g =>
    simp only [feed] at hf
    split at hf
    · simp at hf
    · exact hs hf

theorem single_of_isHigh {h : UInt16} (hh : isHigh h = true) : single h = replacement := by
  simp [single, hh]

theorem decodeUnits_cons_of_not_isHigh {u : UInt16} (us : List UInt16) (hu : isHigh u = false) :
    decodeUnits (u :: us) = single u :: decodeUnits us := by
  cases us with
  | nil => simp [decodeUnits]
  | cons v us => simp [decodeUnits, hu]

theorem decodeUnits_cons (u : UInt16) (us : List UInt16) :
    decodeUnits (u :: us) = (start u).2 ++ decodeUnits ((start u).1.toList ++ us) := by
  unfold start
  by_cases hu : isHigh u = true
  · simp [hu]
  · rw [if_neg hu, decodeUnits_cons_of_not_isHigh us (by simpa using hu)]
    rfl

theorem decodeUnits_feed {held : Option UInt16} (hh : ∀ h, held = some h → isHigh h = true)
    (u : UInt16) (us : List UInt16) :
    decodeUnits (held.toList ++ u :: us) =
      (feed held u).2 ++ decodeUnits ((feed held u).1.toList ++ us) := by
  cases held with
  | none => exact decodeUnits_cons u us
  | some h =>
    have hhigh := hh h rfl
    rw [Option.toList_some, List.singleton_append, decodeUnits, feed, hhigh, Bool.true_and]
    by_cases hl : isLow u = true
    · rw [if_pos hl, if_pos hl]
      rfl
    · rw [if_neg hl, if_neg hl, single_of_isHigh hhigh, decodeUnits_cons]
      rfl

theorem decodeUnits_run {held : Option UInt16} (hh : ∀ h, held = some h → isHigh h = true)
    (us : List UInt16) :
    decodeUnits (held.toList ++ us) = (run held us).2 ++ unpaired (run held us).1 := by
  induction us generalizing held with
  | nil =>
    cases held with
    | none => rfl
    | some h =>
      show [single h] = [replacement]
      rw [single_of_isHigh (hh h rfl)]
  | cons u us ih =>
    rw [decodeUnits_feed hh, ih fun h e => isHigh_of_feed e, ← List.append_assoc]
    rfl

theorem decodeUnits_eq_run (us : List UInt16) :
    decodeUnits us = (run none us).2 ++ unpaired (run none us).1 := by
  have hh : ∀ h, (none : Option UInt16) = some h → isHigh h = true := by
    intro h e
    simp at e
  exact decodeUnits_run hh us

end Utf16
end StoreClient

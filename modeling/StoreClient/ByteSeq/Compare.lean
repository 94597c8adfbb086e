import StoreClient.ByteSeq.Chunks

/-! # Comparison

Sequences compare by their bytes, whatever their shapes.  Two arrays compare at once; otherwise
the runs of both sides are compared piece by piece, as long as the shorter of the two unread parts,
and either side is refilled when it runs dry.  `eqBytes` compares a sequence with a plain byte
string, run by run, and `eqText` with a text. -/

namespace StoreClient

namespace Chunks

/-- The unread part of a run; once nothing of it is left, the next run. -/
def refill (unread : Bytes) (ch : Chunks) : Bytes × Chunks :=
  if unread.isEmpty then ch.next?.getD ([], []) else (unread, ch)

theorem width_refill_le (unread : Bytes) (ch : Chunks) :
    (refill unread ch).1.length + (refill unread ch).2.width ≤ unread.length + ch.width := by
  unfold refill
  split
  · cases h : ch.next? with
    | none => exact Nat.zero_le _
    | some p => exact Nat.le_trans (next?_eq_some h).2 (Nat.le_add_left _ _)
  · exact Nat.le_refl _

/-- Compares what is left of two traversals, `a` and `b` being the unread parts of the runs that
were opened last. -/
def compareFrom (a : Bytes) (lhs : Chunks) (b : Bytes) (rhs : Chunks) : Ordering :=
  let left := refill a lhs
  let right := refill b rhs
  if _hl : left.1.isEmpty then if right.1.isEmpty then .eq else .lt
  else if _hr : right.1.isEmpty then .gt
  else
    let front := Bytes.compareFront left.1 right.1
    match front.1 with
    | .eq => compareFrom front.2.1 left.2 front.2.2 right.2
    | .lt => .lt
    | .gt => .gt
termination_by a.length + lhs.width + b.length + rhs.width
decreasing_by
  have hl : left.1.length + left.2.width ≤ _ := width_refill_le a lhs
  have hr : right.1.length + right.2.width ≤ _ := width_refill_le b rhs
  have hlt : front.2.1.length + front.2.2.length < _ :=
    Bytes.length_compareFront_lt (mt List.isEmpty_iff.mpr _hl) (mt List.isEmpty_iff.mpr _hr)
  show front.2.1.length + left.2.width + front.2.2.length + right.2.width < _
  omega

/-- What is left of `rest` after a run that it starts with. -/
def strip (rest run : Bytes) : Except Unit Bytes :=
  if run.isPrefixOf rest then .ok (rest.drop run.length) else .error ()

/-- Whether the runs spell a byte string. -/
def spell (ch : Chunks) (bs : Bytes) : Bool :=
  match ch.foldUntil strip bs with
  | .ok rest => rest.isEmpty
  | .error _ => false

end Chunks

namespace ByteSeq

/-- Unsigned lexicographic order of the bytes; a proper prefix comes first. -/
def compare (a b : ByteSeq) : Ordering :=
  match a.contiguous?, b.contiguous? with
  | some as, some bs => Bytes.compare as bs
  | _, _ => Chunks.compareFrom [] a.chunks [] b.chunks

/-- Whether two sequences hold the same bytes. -/
def contentEq (a b : ByteSeq) : Bool :=
  if a.length ≠ b.length then false
  else match a.contiguous?, b.contiguous? with
    | some as, some bs => as == bs
    | _, _ => compare a b == .eq

instance : BEq ByteSeq := ⟨contentEq⟩

instance : Ord ByteSeq := ⟨compare⟩

/-- The order as a partial one. -/
def partialCompare (a b : ByteSeq) : Option Ordering := some (Ord.compare a b)

/-- Whether a sequence holds the bytes of a plain byte string. -/
def eqBytes (s : ByteSeq) (bs : Bytes) : Bool := s.length == bs.length && s.chunks.spell bs

/-- Whether a sequence holds a text in UTF-8. -/
def eqText (s : ByteSeq) (cs : List Char) : Bool := s.eqBytes (Utf8.encode cs)

end ByteSeq
end StoreClient

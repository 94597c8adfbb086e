import StoreClient.Bytes
import StoreClient.Error

/-! # External buffers

A `Buffer` is storage that a sequence reads but does not own: it names its size, answers with a
run of bytes at a position, and shows all its bytes at once if they lie in one piece.  Nothing
forces a buffer to answer consistently; `Buffer.Holds` says that it does, and which bytes it
holds.  Buffers over one array, over the two halves of a ring and over a list of segments keep
that promise; `Buffer.claiming` overrides the size and may break it. -/

namespace StoreClient

/-- Storage that delivers its bytes in runs. -/
structure Buffer where
  size : Nat
  chunkAt : Nat → Bytes
  contiguous? : Option Bytes

namespace Buffer

/-- The buffer holds exactly `data`: runs before the end are non-empty pieces of it, and a
contiguous view is all of it. -/
structure Holds (b : Buffer) (data : Bytes) : Prop where
  size_eq : b.size = data.length
  chunk_ne_nil : ∀ pos, pos < b.size → b.chunkAt pos ≠ []
  chunk_prefix : ∀ pos, pos < b.size → b.chunkAt pos <+: data.drop pos
  contiguous : ∀ all, b.contiguous? = some all → all = data

/-- The buffer keeps its promises about some data. -/
def Lawful (b : Buffer) : Prop := ∃ data, b.Holds data

/-- One array. -/
def ofBytes (data : Bytes) : Buffer where
  size := data.length
  chunkAt pos := data.drop pos
  contiguous? := some data

/-- A ring whose contents run through `front` and then `back`. -/
def ring (front back : Bytes) : Buffer where
  size := front.length + back.length
  chunkAt pos := if pos < front.length then front.drop pos else back.drop (pos - front.length)
  contiguous? := if back.isEmpty then some front else if front.isEmpty then some back else none

/-- The rest of the segment that holds a position; nothing past the data. -/
def segmentAt : List Bytes → Nat → Bytes
  | [], _ => []
  | part :: parts, pos =>
    if pos < part.length then part.drop pos else segmentAt parts (pos - part.length)

/-- Segments that claim `size` bytes, whatever they hold. -/
def claiming (size : Nat) (parts : List Bytes) : Buffer where
  size := size
  chunkAt := segmentAt parts
  contiguous? := match parts with
    | [] => if size = 0 then some [] else none
    | [part] => if part.length = size then some part else none
    | _ => none

/-- Segments end to end. -/
def segments (parts : List Bytes) : Buffer := claiming parts.flatten.length parts

def isEmpty (b : Buffer) : Bool := b.size == 0

/-- The run at a position up to the end; past the end there is none. -/
def chunk? (b : Buffer) (pos : Nat) : Outcome Bytes :=
  if pos ≤ b.size then .ok (b.chunkAt pos) else .error (.panic (.positionPastEnd pos b.size))

theorem holds_ring (front back : Bytes) : (ring front back).Holds (front ++ back) where
  size_eq := by simp [ring]
  chunk_ne_nil pos h := by
    simp only [ring] at h ⊢
    split <;> simp only [ne_eq, List.drop_eq_nil_iff] <;> omega
  chunk_prefix pos h := by
    simp only [ring]
    split
    · next hp =>
      rw [List.drop_append_of_le_length (Nat.le_of_lt hp)]
      exact List.prefix_append ..
    · next hp =>
      rw [List.drop_append, List.drop_eq_nil_of_le (Nat.not_lt.mp hp)]
      exact List.prefix_refl _
  contiguous all h := by
    simp only [ring] at h
    split at h
    · next hb => simp_all
    · split at h
      · next hf => simp_all
      · simp at h

theorem segmentAt_ne_nil {parts : List Bytes} {pos : Nat} (h : pos < parts.flatten.length) :
    segmentAt parts pos ≠ [] := by
  induction parts generalizing pos with
  | nil => simp at h
  | cons part parts ih =>
    simp only [segmentAt]
    split
    · simpa using ‹pos < part.length›
    · apply ih
      simp only [List.flatten_cons, List.length_append] at h
      omega

theorem segmentAt_prefix (parts : List Bytes) (pos : Nat) :
    segmentAt parts pos <+: parts.flatten.drop pos := by
  induction parts generalizing pos with
  | nil => simp [segmentAt]
  | cons part parts ih =>
    simp only [segmentAt, List.flatten_cons]
    split
    · next h =>
      rw [List.drop_append_of_le_length (Nat.le_of_lt h)]
      exact List.prefix_append ..
    · next h =>
      rw [List.drop_append, List.drop_eq_nil_of_le (Nat.not_lt.mp h)]
      simpa using ih (pos - part.length)

theorem holds_segments (parts : List Bytes) : (segments parts).Holds parts.flatten where
  size_eq := rfl
  chunk_ne_nil _ h := segmentAt_ne_nil h
  chunk_prefix pos _ := segmentAt_prefix parts pos
  contiguous all h := by
    simp only [segments, claiming] at h
    split at h <;> simp_all

end Buffer
end StoreClient

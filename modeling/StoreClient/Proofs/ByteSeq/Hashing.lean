import StoreClient.ByteSeq.Output
import StoreClient.Proofs.ByteSeq.Shape

/-! # What a hash function is fed

A sequence feeds a hash function its length, every full block of its bytes and the bytes that are
left, so it feeds what its byte list does (`HashCall.ofBytes`).  Cutting blocks off run after run
is cutting them off the whole (`HashInput.foldl_absorb`), because the blocks of two byte strings end
to end are those of the first, and then those of what it left with the second
(`Bytes.blocks_append`).

A block of fixed size that is filled in place and filled anew when it is full serves as well:
past what it was filled with it holds bytes of earlier blocks, and none of them is passed on
(`BlockInput.toInput_absorb`).  So two sequences feed the same exactly if they hold the same bytes
(`ByteSeq.built_hash`). -/

namespace StoreClient

/-! ### Blocks -/

namespace Bytes

variable {size : Nat} {positive : 0 < size} {bs : Bytes}

theorem blocks_of_lt (h : bs.length < size) : bs.blocks size positive = ([], bs) := by
  have htake : (bs.take size).length < size := by
    rw [List.length_take]
    omega
  rw [blocks]
  exact if_pos htake

theorem blocks_of_le (h : size ≤ bs.length) : bs.blocks size positive =
    (bs.take size :: (blocks size positive (bs.drop size)).1,
      (blocks size positive (bs.drop size)).2) := by
  have htake : ¬(bs.take size).length < size := by
    rw [List.length_take]
    omega
  rw [blocks]
  exact if_neg htake

/-- Induction by the blocks that a byte string has in front. -/
theorem blocks_induction {motive : Bytes → Prop} (positive : 0 < size)
    (short : ∀ bs : Bytes, bs.length < size → motive bs)
    (full : ∀ bs : Bytes, size ≤ bs.length → motive (bs.drop size) → motive bs) (bs : Bytes) :
    motive bs := by
  induction hn : bs.length using Nat.strongRecOn generalizing bs with
  | ind n ih =>
    rcases Nat.lt_or_ge bs.length size with hlt | hle
    · exact short bs hlt
    · apply full bs hle
      have hless : (bs.drop size).length < n := by
        rw [List.length_drop]
        omega
      exact ih _ hless _ rfl

theorem length_rest_blocks_lt : (bs.blocks size positive).2.length < size := by
  induction bs using blocks_induction positive with
  | short bs h => rwa [blocks_of_lt h]
  | full bs h ih => rwa [blocks_of_le h]

theorem flatten_blocks :
    (bs.blocks size positive).1.flatten ++ (bs.blocks size positive).2 = bs := by
  induction bs using blocks_induction positive with
  | short bs h => rw [blocks_of_lt h, List.flatten_nil, List.nil_append]
  | full bs h ih =>
    rw [blocks_of_le h, List.flatten_cons, List.append_assoc, ih, List.take_append_drop]

theorem blocks_append (xs ys : Bytes) : (xs ++ ys).blocks size positive =
    ((xs.blocks size positive).1 ++ (((xs.blocks size positive).2 ++ ys).blocks size positive).1,
      (((xs.blocks size positive).2 ++ ys).blocks size positive).2) := by
  induction xs using blocks_induction positive with
  | short xs h => rw [blocks_of_lt h, List.nil_append]
  | full xs h ih =>
    have hle : size ≤ (xs ++ ys).length := by
      rw [List.length_append]
      omega
    rw [blocks_of_le hle, blocks_of_le h, List.take_append_of_le_length h,
      List.drop_append_of_le_length h, ih, List.cons_append]

/-- The blocks by their places. -/
theorem blocks_eq_windows : bs.blocks size positive =
    ((List.range (bs.length / size)).map fun i => bs.window (i * size) ((i + 1) * size),
      bs.drop (bs.length / size * size)) := by
  induction bs using blocks_induction positive with
  | short bs h =>
    rw [blocks_of_lt h, Nat.div_eq_of_lt h, Nat.zero_mul, List.drop_zero]
    rfl
  | full bs h ih =>
    have hcount : bs.length / size = (bs.drop size).length / size + 1 := by
      rw [List.length_drop, ← Nat.sub_add_cancel h, Nat.add_div_right _ positive,
        Nat.add_sub_cancel]
    have hfirst : bs.window (0 * size) ((0 + 1) * size) = bs.take size := by
      simp [window]
    have hnext (i : Nat) : bs.window ((i + 1) * size) ((i + 1 + 1) * size) =
        window (bs.drop size) (i * size) ((i + 1) * size) := by
      rw [window, window, List.drop_drop, Nat.succ_mul (i + 1), Nat.succ_mul i,
        Nat.add_sub_cancel_left, Nat.add_sub_cancel_left, Nat.add_comm size]
    rw [blocks_of_le h, ih, hcount, List.range_succ_eq_map, List.map_cons, List.map_map, hfirst,
      List.drop_drop, Nat.succ_mul, Nat.add_comm size]
    congr 2
    exact List.map_congr_left fun i _ => (hnext i).symm

/-- The bytes with a piece written over those from a position on. -/
def overwrite (bs : Bytes) (pos : Nat) (piece : Bytes) : Bytes :=
  bs.take pos ++ piece ++ bs.drop (pos + piece.length)

variable {pos : Nat} {piece : Bytes}

theorem length_overwrite (h : pos + piece.length ≤ bs.length) :
    (bs.overwrite pos piece).length = bs.length := by
  rw [overwrite, List.length_append, List.length_append, List.length_take, List.length_drop]
  omega

theorem take_overwrite (h : pos ≤ bs.length) :
    (bs.overwrite pos piece).take (pos + piece.length) = bs.take pos ++ piece := by
  have hlength : pos + piece.length = (bs.take pos ++ piece).length := by
    rw [List.length_append, List.length_take_of_le h]
  rw [overwrite, hlength, List.take_left]

end Bytes

/-! ### Run after run -/

theorem hashBlock_pos : 0 < hashBlock := Nat.succ_pos 63

namespace HashInput

/-- The blocks of what was begun and a run. -/
abbrev cut (h : HashInput) (run : Bytes) : List Bytes × Bytes :=
  (h.begun ++ run).blocks hashBlock hashBlock_pos

theorem absorb_eq (h : HashInput) (run : Bytes) :
    h.absorb run = ⟨((h.cut run).1.map .write).reverse ++ h.calls, (h.cut run).2⟩ := rfl

/-- A run that does not fill the block is begun with. -/
theorem absorb_of_lt {h : HashInput} {run : Bytes} (hlt : (h.begun ++ run).length < hashBlock) :
    h.absorb run = ⟨h.calls, h.begun ++ run⟩ := by
  rw [absorb_eq, cut, Bytes.blocks_of_lt hlt]
  rfl

/-- A run that just fills the block is passed on with it. -/
theorem absorb_of_full {h : HashInput} {run : Bytes}
    (hfull : (h.begun ++ run).length = hashBlock) :
    h.absorb run = ⟨.write (h.begun ++ run) :: h.calls, []⟩ := by
  have hle : hashBlock ≤ (h.begun ++ run).length := Nat.le_of_eq hfull.symm
  have hdrop : (h.begun ++ run).drop hashBlock = [] := List.drop_of_length_le (Nat.le_of_eq hfull)
  rw [absorb_eq, cut, Bytes.blocks_of_le hle, hdrop, List.take_of_length_le (Nat.le_of_eq hfull),
    Bytes.blocks_of_lt hashBlock_pos]
  rfl

theorem absorb_nil {h : HashInput} (hbegun : h.begun.length < hashBlock) : h.absorb [] = h := by
  rw [absorb_of_lt (by rwa [List.append_nil]), List.append_nil]

theorem length_begun_absorb (h : HashInput) (run : Bytes) :
    (h.absorb run).begun.length < hashBlock :=
  Bytes.length_rest_blocks_lt

theorem absorb_absorb (h : HashInput) (run run' : Bytes) :
    (h.absorb run).absorb run' = h.absorb (run ++ run') := by
  have hcut : h.cut (run ++ run') =
      ((h.cut run).1 ++ ((h.absorb run).cut run').1, ((h.absorb run).cut run').2) := by
    rw [cut, ← List.append_assoc]
    exact Bytes.blocks_append (h.begun ++ run) run'
  rw [absorb_eq _ run', absorb_eq h (run ++ run'), hcut, absorb_eq h run, List.map_append,
    List.reverse_append, List.append_assoc]

theorem absorb_take_drop (h : HashInput) (n : Nat) (run : Bytes) :
    (h.absorb (run.take n)).absorb (run.drop n) = h.absorb run := by
  rw [absorb_absorb, List.take_append_drop]

theorem foldl_absorb {h : HashInput} (hbegun : h.begun.length < hashBlock) (runs : List Bytes) :
    runs.foldl absorb h = h.absorb runs.flatten := by
  induction runs generalizing h with
  | nil => rw [List.foldl_nil, List.flatten_nil, absorb_nil hbegun]
  | cons run runs ih =>
    rw [List.foldl_cons, ih (h.length_begun_absorb run), absorb_absorb, List.flatten_cons]

end HashInput

namespace HashCall

/-- What a byte list feeds: its length, each full block, and the bytes too few for another. -/
def ofBytes (bs : Bytes) : List HashCall :=
  .length bs.length ::
    ((List.range (bs.length / hashBlock)).map fun i =>
      .write (bs.window (i * hashBlock) ((i + 1) * hashBlock))) ++
    [.write (bs.drop (bs.length / hashBlock * hashBlock))]

/-- The bytes that a call passes on. -/
def bytes : HashCall → Bytes
  | length _ => []
  | write bs => bs

theorem ofBytes_eq_blocks (bs : Bytes) : ofBytes bs =
    .length bs.length :: (bs.blocks hashBlock hashBlock_pos).1.map write ++
      [.write (bs.blocks hashBlock hashBlock_pos).2] := by
  rw [Bytes.blocks_eq_windows, List.map_map]
  rfl

theorem flatMap_bytes_ofBytes (bs : Bytes) : (ofBytes bs).flatMap bytes = bs := by
  have hwrite : (bytes ∘ write : Bytes → Bytes) = id := rfl
  rw [ofBytes_eq_blocks, List.flatMap_append, List.flatMap_cons, List.flatMap_map,
    List.flatMap_singleton]
  show [] ++ List.flatMap (bytes ∘ write) _ ++ _ = bs
  rw [hwrite, List.nil_append, List.flatMap_id]
  exact Bytes.flatten_blocks

theorem ofBytes_eq_iff {bs cs : Bytes} : ofBytes bs = ofBytes cs ↔ bs = cs := by
  constructor
  · intro h
    rw [← flatMap_bytes_ofBytes bs, h, flatMap_bytes_ofBytes]
  · exact congrArg ofBytes

end HashCall

/-! ### A block filled in place -/

/-- A hash input whose block has a fixed size and is filled in place. -/
structure BlockInput where
  /-- The calls so far, last first. -/
  calls : List HashCall
  block : Bytes
  /-- How many bytes at the front of the block have not been passed on. -/
  filled : Nat
  length_block : block.length = hashBlock
  filled_lt : filled < hashBlock

namespace BlockInput

/-- Copies the run into the block, piece by piece, and passes the block on each time it is full. -/
def absorb (h : BlockInput) (run : Bytes) : BlockInput :=
  if _hrun : run = [] then h
  else
    let n := min (hashBlock - h.filled) run.length
    let block := h.block.overwrite h.filled (run.take n)
    have hpiece : (run.take n).length = n := List.length_take_of_le (Nat.min_le_right _ _)
    have hroom : h.filled + n ≤ hashBlock := by
      have := h.filled_lt
      omega
    have hblock : block.length = hashBlock :=
      (Bytes.length_overwrite (by rw [hpiece, h.length_block]; exact hroom)).trans h.length_block
    if hfull : h.filled + n = hashBlock then
      absorb ⟨.write block :: h.calls, block, 0, hblock, hashBlock_pos⟩ (run.drop n)
    else
      absorb ⟨h.calls, block, h.filled + n, hblock, Nat.lt_of_le_of_ne hroom hfull⟩ (run.drop n)
termination_by run.length
decreasing_by
  all_goals
    have := h.filled_lt
    have := List.length_pos_iff.mpr _hrun
    rw [List.length_drop]
    omega

/-- What matters of the block is what it was filled with. -/
def toInput (h : BlockInput) : HashInput := ⟨h.calls, h.block.take h.filled⟩

theorem length_begun (h : BlockInput) : h.toInput.begun.length = h.filled :=
  List.length_take_of_le (h.length_block ▸ Nat.le_of_lt h.filled_lt)

/-- Writing a piece over the block after what it was filled with is appending it to that. -/
theorem take_overwrite (h : BlockInput) (piece : Bytes) :
    (h.block.overwrite h.filled piece).take (h.filled + piece.length) =
      h.toInput.begun ++ piece :=
  Bytes.take_overwrite (h.length_block ▸ Nat.le_of_lt h.filled_lt)

theorem toInput_absorb (h : BlockInput) (run : Bytes) :
    (h.absorb run).toInput = h.toInput.absorb run := by
  fun_induction absorb h run with
  | case1 h =>
    have hbegun : h.toInput.begun.length < hashBlock := h.length_begun ▸ h.filled_lt
    exact (HashInput.absorb_nil hbegun).symm
  | case2 h run hrun n block hpiece hroom hblock hfull ih =>
    have hpassed : block = h.toInput.begun ++ run.take n := by
      rw [← h.take_overwrite, hpiece, hfull, ← hblock, List.take_length]
    have hpiece' : h.toInput.absorb (run.take n) = ⟨.write block :: h.calls, []⟩ := by
      rw [HashInput.absorb_of_full (by rw [← hpassed, hblock]), ← hpassed]
      rfl
    rw [ih, ← h.toInput.absorb_take_drop n run, hpiece']
    rfl
  | case3 h run hrun n block hpiece hroom hblock hfull ih =>
    have hbegun : block.take (h.filled + n) = h.toInput.begun ++ run.take n := by
      rw [← h.take_overwrite, hpiece]
    have hlength : (h.toInput.begun ++ run.take n).length = h.filled + n := by
      rw [List.length_append, h.length_begun, hpiece]
    have hpiece' : h.toInput.absorb (run.take n) = ⟨h.calls, block.take (h.filled + n)⟩ := by
      rw [HashInput.absorb_of_lt (hlength ▸ Nat.lt_of_le_of_ne hroom hfull), ← hbegun]
      rfl
    rw [ih, ← h.toInput.absorb_take_drop n run, hpiece']
    rfl

theorem toInput_foldl_absorb (h : BlockInput) (runs : List Bytes) :
    (runs.foldl absorb h).toInput = runs.foldl HashInput.absorb h.toInput := by
  induction runs generalizing h with
  | nil => rfl
  | cons run runs ih => rw [List.foldl_cons, List.foldl_cons, ih, toInput_absorb]

def start (calls : List HashCall) : BlockInput :=
  ⟨calls, List.replicate hashBlock 0, 0, List.length_replicate, hashBlock_pos⟩

end BlockInput

/-! ### Sequences -/

namespace ByteSeq

variable {s t : ByteSeq}

/-- The calls that a sequence makes on a hash function through a block that is filled in place. -/
def hashFeedInPlace (s : ByteSeq) : List HashCall :=
  (s.chunks.foldl BlockInput.absorb (.start [.length s.length])).toInput.finish

theorem hashFeedInPlace_eq (s : ByteSeq) : s.hashFeedInPlace = s.hashFeed := by
  rw [hashFeedInPlace, hashFeed, Chunks.foldl_eq, Chunks.foldl_eq, BlockInput.toInput_foldl_absorb]
  rfl

/-- However its runs are cut, a sequence feeds what the byte list that it holds feeds. -/
theorem Sound.hashFeed_eq (hs : s.Sound) : s.hashFeed = HashCall.ofBytes s.content := by
  have hbegun : (⟨[.length s.length], []⟩ : HashInput).begun.length < hashBlock := hashBlock_pos
  rw [hashFeed, Chunks.foldl_eq, HashInput.foldl_absorb hbegun, hs.flatten_chunks,
    HashCall.ofBytes_eq_blocks, hs.length_content, HashInput.finish, HashInput.absorb_eq,
    List.reverse_cons, List.reverse_append, List.reverse_reverse]
  rfl

/-- Sequences that the operations build over lawful buffers feed a hash function the length, each
full block and the rest of their bytes, also from a block that is filled in place, and two of them
make the same calls exactly if they hold the same bytes. -/
theorem built_hash (hs : Built Buffer.Lawful s) (ht : Built Buffer.Lawful t) :
    s.hashFeed = HashCall.ofBytes s.toBytes ∧ s.hashFeedInPlace = HashCall.ofBytes s.toBytes ∧
      (s.hashFeed = t.hashFeed ↔ s.toBytes = t.toBytes) := by
  have hsound := hs.tidy.sound
  have hfeed (u : ByteSeq) (hu : u.Sound) : u.hashFeed = HashCall.ofBytes u.toBytes := by
    rw [hu.hashFeed_eq, hu.toBytes_eq]
  refine ⟨hfeed s hsound, ?_, ?_⟩
  · rw [hashFeedInPlace_eq, hfeed s hsound]
  · rw [hfeed s hsound, hfeed t ht.tidy.sound, HashCall.ofBytes_eq_iff]

def counted (n : Nat) : Bytes := (List.range n).map Nat.toUInt8

/-- Seventy bytes in a wrapped ring of fifty and an array of twenty. -/
def countedInRing : ByteSeq :=
  concat (.ofBuffer (.ring (counted 30) ((counted 50).drop 30))) (array ((counted 70).drop 50)) 70

/-- The first block takes in the two halves of the ring and a part of the array. -/
theorem built_hash_of_countedInRing :
    countedInRing.hashFeed =
        [.length 70, .write (counted 64), .write [64, 65, 66, 67, 68, 69]] ∧
      countedInRing.hashFeedInPlace = countedInRing.hashFeed ∧
      countedInRing.hashFeed = (array (counted 70)).hashFeed := by
  have hring : (Buffer.ring (counted 30) ((counted 50).drop 30)).Lawful :=
    ⟨_, Buffer.holds_ring _ _⟩
  have hsize : (Buffer.ring (counted 30) ((counted 50).drop 30)).size ≤ wordMax := by decide
  have htail : ((counted 70).drop 50).length ≤ wordMax := by decide
  have hall : (counted 70).length ≤ wordMax := by decide
  have hbuilt : Built Buffer.Lawful countedInRing :=
    .tryConcat (.buffer hring hsize) (.array htail) rfl
  have harray : Built Buffer.Lawful (array (counted 70)) := .array hall
  have hbytes : countedInRing.toBytes = counted 70 :=
    hbuilt.tidy.sound.toBytes_eq.trans (by decide +kernel)
  obtain ⟨hfeed, hinPlace, hiff⟩ := built_hash hbuilt harray
  rw [hbytes] at hfeed hinPlace
  refine ⟨hfeed.trans (by decide +kernel), hinPlace.trans hfeed.symm, hiff.mpr ?_⟩
  exact hbytes.trans harray.tidy.sound.toBytes_eq.symm

end ByteSeq
end StoreClient

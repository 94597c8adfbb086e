import StoreClient.ByteSeq.Output
import StoreClient.Proofs.ByteSeq.Shape

/-! # Output into limited room

Two outputs take the runs of a sequence one by one and end at the first that does not fit.
`Written.fill` takes of that run what fits, so what it wrote is the front of the bytes as far as the
room reaches; `Written.put` takes nothing of it, so what it wrote is the longest front of the list
of runs that fits as a whole (`Written.LongestFront`).  Either succeeds exactly if the length of the
sequence fits, and then it wrote everything (`ByteSeq.built_output`).

In memory an output writes over the bytes that stood there (`Destination`), and past what was
written these stay as they were. -/

namespace StoreClient

/-! ### Runs into a room -/

namespace Written

variable {w : Written} {run : Bytes} {runs : List Bytes}

theorem bytes_cons (run : Bytes) (taken : List Bytes) (room room' : Nat) :
    bytes ⟨run :: taken, room⟩ = bytes ⟨taken, room'⟩ ++ run := by
  simp [bytes]

theorem bytes_append_taken (w : Written) (runs : List Bytes) (room : Nat) :
    bytes ⟨runs.reverse ++ w.taken, room⟩ = w.bytes ++ runs.flatten := by
  simp [bytes]

theorem fill_of_le (h : run.length ≤ w.room) :
    w.fill run = .ok ⟨run :: w.taken, w.room - run.length⟩ := if_pos h

theorem fill_of_lt (h : w.room < run.length) :
    w.fill run = .error ⟨run.take w.room :: w.taken, 0⟩ := if_neg (Nat.not_le.mpr h)

theorem put_of_le (h : run.length ≤ w.room) :
    w.put run = .ok ⟨run :: w.taken, w.room - run.length⟩ := if_pos h

theorem put_of_lt (h : w.room < run.length) : w.put run = .error w := if_neg (Nat.not_le.mpr h)

/-- Where each run that fits is taken whole, runs that fit together are all taken. -/
theorem foldlM_of_le {take : Written → Bytes → Except Written Written}
    (htake : ∀ (w : Written) (run : Bytes), run.length ≤ w.room →
      take w run = .ok ⟨run :: w.taken, w.room - run.length⟩)
    (h : runs.flatten.length ≤ w.room) :
    runs.foldlM take w = .ok ⟨runs.reverse ++ w.taken, w.room - runs.flatten.length⟩ := by
  induction runs generalizing w with
  | nil => rfl
  | cons run runs ih =>
    rw [List.flatten_cons, List.length_append] at h
    have hrun : run.length ≤ w.room := by omega
    have hrest : runs.flatten.length ≤ w.room - run.length := by omega
    rw [List.foldlM_cons, htake w run hrun]
    show List.foldlM take _ runs = _
    rw [ih hrest, List.flatten_cons, List.length_append, Nat.sub_sub, List.reverse_cons,
      List.append_assoc]
    rfl

/-- Runs that do not fit fill the room with the front of what they spell. -/
theorem foldlM_fill_of_lt (h : w.room < runs.flatten.length) :
    ∃ e, runs.foldlM fill w = .error e ∧ e.bytes = w.bytes ++ runs.flatten.take w.room ∧
      e.room = 0 := by
  induction runs generalizing w with
  | nil => exact absurd h (Nat.not_lt_zero _)
  | cons run runs ih =>
    rw [List.flatten_cons] at h ⊢
    rw [List.foldlM_cons]
    by_cases hrun : run.length ≤ w.room
    · rw [List.length_append] at h
      have hrest : w.room - run.length < runs.flatten.length := by omega
      obtain ⟨e, he, hbytes, hroom⟩ := ih (w := ⟨run :: w.taken, w.room - run.length⟩) hrest
      refine ⟨e, ?_, ?_, hroom⟩
      · rw [fill_of_le hrun]
        exact he
      · rw [hbytes, bytes_cons run w.taken _ w.room, List.append_assoc, List.take_append,
          List.take_of_length_le hrun]
    · have hlt : w.room < run.length := Nat.not_le.mp hrun
      refine ⟨⟨run.take w.room :: w.taken, 0⟩, ?_, ?_, rfl⟩
      · rw [fill_of_lt hlt]
        rfl
      · rw [bytes_cons _ w.taken _ w.room, List.take_append_of_le_length (Nat.le_of_lt hlt)]

/-- A front of the runs that fits, such that every front that fits is a front of it. -/
structure LongestFront (runs : List Bytes) (room : Nat) (front : List Bytes) : Prop where
  isFront : front <+: runs
  fits : front.flatten.length ≤ room
  longest : ∀ other : List Bytes, other <+: runs → other.flatten.length ≤ room → other <+: front

theorem longestFront_of_le {room : Nat} (h : runs.flatten.length ≤ room) :
    LongestFront runs room runs :=
  ⟨List.prefix_refl _, h, fun _ hother _ => hother⟩

/-- A first run that fits belongs to every longest front. -/
theorem LongestFront.cons {front : List Bytes} {room : Nat} (h : run.length ≤ room)
    (hfront : LongestFront runs (room - run.length) front) :
    LongestFront (run :: runs) room (run :: front) where
  isFront := (List.prefix_cons_inj run).mpr hfront.isFront
  fits := by
    have hfits := hfront.fits
    rw [List.flatten_cons, List.length_append]
    omega
  longest other hother hfits := by
    cases other with
    | nil => exact List.nil_prefix
    | cons first other =>
      obtain ⟨rfl, hrest⟩ := List.cons_prefix_cons.mp hother
      rw [List.flatten_cons, List.length_append] at hfits
      exact (List.prefix_cons_inj first).mpr (hfront.longest other hrest (by omega))

/-- Behind a first run that does not fit nothing is taken. -/
theorem longestFront_nil {room : Nat} (h : room < run.length) :
    LongestFront (run :: runs) room [] where
  isFront := List.nil_prefix
  fits := Nat.zero_le _
  longest other hother hfits := by
    cases other with
    | nil => exact List.nil_prefix
    | cons first other =>
      obtain ⟨rfl, -⟩ := List.cons_prefix_cons.mp hother
      rw [List.flatten_cons, List.length_append] at hfits
      omega

/-- Of runs that do not fit, the longest front that fits is taken. -/
theorem foldlM_put_of_lt (h : w.room < runs.flatten.length) :
    ∃ front, LongestFront runs w.room front ∧ runs.foldlM put w =
      .error ⟨front.reverse ++ w.taken, w.room - front.flatten.length⟩ := by
  induction runs generalizing w with
  | nil => exact absurd h (Nat.not_lt_zero _)
  | cons run runs ih =>
    rw [List.flatten_cons, List.length_append] at h
    rw [List.foldlM_cons]
    by_cases hrun : run.length ≤ w.room
    · have hrest : w.room - run.length < runs.flatten.length := by omega
      obtain ⟨front, hfront, hput⟩ := ih (w := ⟨run :: w.taken, w.room - run.length⟩) hrest
      refine ⟨run :: front, hfront.cons hrun, ?_⟩
      rw [put_of_le hrun]
      refine Eq.trans hput ?_
      simp only [List.reverse_cons, List.append_assoc, List.cons_append, List.nil_append,
        List.flatten_cons, List.length_append, Nat.sub_sub]
    · have hlt : w.room < run.length := Nat.not_le.mp hrun
      refine ⟨[], longestFront_nil hlt, ?_⟩
      rw [put_of_lt hlt]
      rfl

end Written

/-! ### Output in place -/

/-- Memory that an output writes from the front: what it wrote, and the old bytes behind that. -/
structure Destination where
  written : Bytes := []
  left : Bytes

namespace Destination

def memory (d : Destination) : Bytes := d.written ++ d.left

/-- Writes of a run what fits over the old bytes; a run cut short ends the output. -/
def fill (d : Destination) (run : Bytes) : Except Destination Destination :=
  if run.length ≤ d.left.length then .ok ⟨d.written ++ run, d.left.drop run.length⟩
  else .error ⟨d.written ++ run.take d.left.length, []⟩

/-- Writes a whole run over the old bytes; one that does not fit ends the output. -/
def put (d : Destination) (run : Bytes) : Except Destination Destination :=
  if run.length ≤ d.left.length then .ok ⟨d.written ++ run, d.left.drop run.length⟩ else .error d

/-- What stands in memory when an output has ended, and whether everything fitted. -/
def ended : Except Destination Destination → Bytes × Bool
  | .ok d => (d.memory, true)
  | .error d => (d.memory, false)

end Destination

/-- The destination of an output that has written so much over old bytes. -/
def Written.overlay (old : Bytes) (w : Written) : Destination := ⟨w.bytes, old.drop w.bytes.length⟩

/-- What an output wrote and the room that it has left are all the old bytes. -/
def Written.Within (old : Bytes) (w : Written) : Prop := w.bytes.length + w.room = old.length

/-- Two outputs end alike, the second with what the first wrote over the old bytes. -/
inductive Written.Mirrors (old : Bytes) :
    Except Written Written → Except Destination Destination → Prop
  | ok {w : Written} (within : w.Within old) : Mirrors old (.ok w) (.ok (w.overlay old))
  | error {w : Written} (within : w.Within old) : Mirrors old (.error w) (.error (w.overlay old))

/-- What an output wrote, and whether everything fitted. -/
def Written.ended : Except Written Written → Written × Bool
  | .ok w => (w, true)
  | .error w => (w, false)

/-- In memory, what an output wrote stands in front of the old bytes behind it. -/
def Written.inPlace (old : Bytes) (out : Written × Bool) : Bytes × Bool :=
  ((out.1.overlay old).memory, out.2)

namespace Written

variable {old : Bytes} {w : Written} {run : Bytes}

theorem length_left_overlay (h : w.Within old) : (w.overlay old).left.length = w.room := by
  have hroom : w.bytes.length + w.room = old.length := h
  show (old.drop w.bytes.length).length = w.room
  rw [List.length_drop]
  omega

/-- Taking a piece that fits moves the border between new and old bytes by its length. -/
theorem overlay_cons (h : w.Within old) {piece : Bytes} (hpiece : piece.length ≤ w.room) :
    Within old ⟨piece :: w.taken, w.room - piece.length⟩ ∧
      overlay old ⟨piece :: w.taken, w.room - piece.length⟩ =
        ⟨w.bytes ++ piece, (w.overlay old).left.drop piece.length⟩ := by
  have hroom : w.bytes.length + w.room = old.length := h
  have hbytes : bytes ⟨piece :: w.taken, w.room - piece.length⟩ = w.bytes ++ piece :=
    bytes_cons piece w.taken _ w.room
  constructor
  · rw [Within, hbytes, List.length_append]
    show w.bytes.length + piece.length + (w.room - piece.length) = old.length
    omega
  · rw [overlay, hbytes, List.length_append, ← List.drop_drop]
    rfl

theorem fill_overlay (h : w.Within old) (run : Bytes) :
    Mirrors old (w.fill run) ((w.overlay old).fill run) := by
  rw [Destination.fill, length_left_overlay h]
  by_cases hrun : run.length ≤ w.room
  · obtain ⟨hwithin, hover⟩ := overlay_cons h hrun
    rw [fill_of_le hrun, if_pos hrun]
    exact hover ▸ .ok hwithin
  · have hlt : w.room < run.length := Nat.not_le.mp hrun
    have hpiece : (run.take w.room).length = w.room := List.length_take_of_le (Nat.le_of_lt hlt)
    have hnone : (w.overlay old).left.drop w.room = [] :=
      List.drop_of_length_le (Nat.le_of_eq (length_left_overlay h))
    obtain ⟨hwithin, hover⟩ := overlay_cons h (Nat.le_of_eq hpiece)
    rw [hpiece, Nat.sub_self] at hwithin hover
    rw [hnone] at hover
    rw [fill_of_lt hlt, if_neg hrun]
    exact hover ▸ .error hwithin

theorem put_overlay (h : w.Within old) (run : Bytes) :
    Mirrors old (w.put run) ((w.overlay old).put run) := by
  rw [Destination.put, length_left_overlay h]
  by_cases hrun : run.length ≤ w.room
  · obtain ⟨hwithin, hover⟩ := overlay_cons h hrun
    rw [put_of_le hrun, if_pos hrun]
    exact hover ▸ .ok hwithin
  · rw [put_of_lt (Nat.not_le.mp hrun), if_neg hrun]
    exact .error h

theorem foldlM_overlay {take : Written → Bytes → Except Written Written}
    {take' : Destination → Bytes → Except Destination Destination}
    (htake : ∀ {w : Written}, w.Within old → ∀ run, Mirrors old (take w run)
      (take' (w.overlay old) run)) (h : w.Within old) (runs : List Bytes) :
    Mirrors old (runs.foldlM take w) (runs.foldlM take' (w.overlay old)) := by
  induction runs generalizing w with
  | nil => exact .ok h
  | cons run runs ih =>
    have hrun := htake h run
    rw [List.foldlM_cons, List.foldlM_cons]
    generalize take w run = e at hrun
    generalize take' (w.overlay old) run = e' at hrun
    cases hrun with
    | ok within => exact ih within
    | error within => exact .error within

theorem Mirrors.ended_eq {e : Except Written Written} {e' : Except Destination Destination}
    (h : Mirrors old e e') : Destination.ended e' = inPlace old (ended e) := by
  cases h <;> rfl

/-- An output into old bytes is one into as much room, in place. -/
theorem ended_foldUntil_overlay {take : Written → Bytes → Except Written Written}
    {take' : Destination → Bytes → Except Destination Destination}
    (htake : ∀ {w : Written}, w.Within old → ∀ run, Mirrors old (take w run)
      (take' (w.overlay old) run)) (ch : Chunks) :
    Destination.ended (ch.foldUntil take' ⟨[], old⟩) =
      inPlace old (ended (ch.foldUntil take ⟨[], old.length⟩)) := by
  have hempty : Within old ⟨[], old.length⟩ := Nat.zero_add _
  rw [Chunks.foldUntil_eq, Chunks.foldUntil_eq]
  exact (foldlM_overlay htake hempty ch.toList).ended_eq

end Written

/-! ### Sequences -/

namespace ByteSeq

/-- Writes over old bytes as far as these reach: what stands there then, and whether everything
fitted. -/
def writeOver (s : ByteSeq) (old : Bytes) : Bytes × Bool :=
  Destination.ended (s.chunks.foldUntil Destination.fill ⟨[], old⟩)

/-- Copies runs over old bytes: what stands there then, and whether everything fitted. -/
def copyOver (s : ByteSeq) (old : Bytes) : Bytes × Bool :=
  Destination.ended (s.chunks.foldUntil Destination.put ⟨[], old⟩)

variable {s : ByteSeq}

theorem writeOver_eq (s : ByteSeq) (old : Bytes) :
    s.writeOver old = Written.inPlace old (s.writeInto old.length) :=
  Written.ended_foldUntil_overlay Written.fill_overlay s.chunks

theorem copyOver_eq (s : ByteSeq) (old : Bytes) :
    s.copyOver old = Written.inPlace old (s.copyInto old.length) :=
  Written.ended_foldUntil_overlay Written.put_overlay s.chunks

theorem Sound.writeInto_spec (h : s.Sound) (room : Nat) :
    (s.writeInto room).1.bytes = s.content.take room ∧
      ((s.writeInto room).2 = true ↔ s.length ≤ room) := by
  rw [writeInto, Chunks.foldUntil_eq, ← h.length_content, ← h.flatten_chunks]
  by_cases hfits : s.chunks.toList.flatten.length ≤ room
  · have hall := Written.foldlM_of_le (w := ⟨[], room⟩) (fun _ _ => Written.fill_of_le) hfits
    rw [hall, List.take_of_length_le hfits]
    exact ⟨Written.bytes_append_taken _ _ _, iff_of_true rfl hfits⟩
  · obtain ⟨e, he, hbytes, -⟩ :=
      Written.foldlM_fill_of_lt (w := ⟨[], room⟩) (Nat.not_le.mp hfits)
    rw [he]
    exact ⟨hbytes, iff_of_false Bool.false_ne_true hfits⟩

theorem Sound.copyInto_spec (h : s.Sound) (room : Nat) :
    (∃ front, Written.LongestFront s.chunks.toList room front ∧
        (s.copyInto room).1.bytes = front.flatten) ∧
      ((s.copyInto room).2 = true ↔ s.length ≤ room) := by
  rw [copyInto, Chunks.foldUntil_eq, ← h.length_content, ← h.flatten_chunks]
  by_cases hfits : s.chunks.toList.flatten.length ≤ room
  · have hall := Written.foldlM_of_le (w := ⟨[], room⟩) (fun _ _ => Written.put_of_le) hfits
    rw [hall]
    exact ⟨⟨_, Written.longestFront_of_le hfits, Written.bytes_append_taken _ _ _⟩,
      iff_of_true rfl hfits⟩
  · obtain ⟨front, hfront, hput⟩ :=
      Written.foldlM_put_of_lt (w := ⟨[], room⟩) (Nat.not_le.mp hfits)
    rw [hput]
    exact ⟨⟨front, hfront, Written.bytes_append_taken _ _ _⟩,
      iff_of_false Bool.false_ne_true hfits⟩

/-- What the two outputs make of so much room. -/
structure OutputsInto (s : ByteSeq) (room : Nat) : Prop where
  length_toBytes : s.toBytes.length = s.length
  written : (s.writeInto room).1.bytes = s.toBytes.take (min room s.length)
  written_all : (s.writeInto room).2 = true ↔ s.length ≤ room
  copied : ∃ front, Written.LongestFront s.chunks.toList room front ∧
    (s.copyInto room).1.bytes = front.flatten
  copied_all : (s.copyInto room).2 = true ↔ s.length ≤ room
  enough : s.length ≤ room →
    (s.writeInto room).1.bytes = s.toBytes ∧ (s.copyInto room).1.bytes = s.toBytes
  /-- What fits into memory can also be gathered there. -/
  gathered : room ≤ arrayMax → s.length ≤ room → s.gather = .ok s.toBytes
  /-- Bytes of the destination past those written stay as they were. -/
  writeOver : ∀ old : Bytes, old.length = room →
    s.writeOver old = (s.toBytes.take room ++ old.drop s.length, decide (s.length ≤ room))
  copyOver : ∀ old : Bytes, old.length = room →
    s.copyOver old = ((s.copyInto room).1.bytes ++ old.drop (s.copyInto room).1.bytes.length,
      decide (s.length ≤ room))

theorem inPlace_take {old bs : Bytes} {w : Written} (h : w.bytes = bs.take old.length) :
    (w.overlay old).memory = bs.take old.length ++ old.drop bs.length := by
  have hdrop : old.drop (min old.length bs.length) = old.drop bs.length := by
    rcases Nat.le_total old.length bs.length with hle | hle
    · rw [Nat.min_eq_left hle, List.drop_length, List.drop_of_length_le hle]
    · rw [Nat.min_eq_right hle]
  rw [Written.overlay, Destination.memory, h, List.length_take, hdrop]

/-- Of sequences that the operations build over lawful buffers, the one output writes the front as
far as the room reaches, the other the longest front of whole runs, and each succeeds exactly if
there is room for all bytes. -/
theorem built_output (h : Built Buffer.Lawful s) (room : Nat) : s.OutputsInto room := by
  have hs := h.tidy.sound
  have hlength : s.toBytes.length = s.length := hs.toBytes_eq ▸ hs.length_content
  have hflatten : s.chunks.toList.flatten = s.toBytes := (Chunks.bytes_eq_flatten s.chunks).symm
  obtain ⟨hwritten, hwrittenAll⟩ := hs.writeInto_spec room
  obtain ⟨⟨front, hfront, hcopied⟩, hcopiedAll⟩ := hs.copyInto_spec room
  rw [← hs.toBytes_eq] at hwritten
  have hdecide {b : Bool} (hb : b = true ↔ s.length ≤ room) : b = decide (s.length ≤ room) := by
    rw [Bool.eq_iff_iff, hb, decide_eq_true_iff]
  refine
    { length_toBytes := hlength
      written := ?_
      written_all := hwrittenAll
      copied := ⟨front, hfront, hcopied⟩
      copied_all := hcopiedAll
      enough := ?_
      gathered := fun hroom hfits => if_pos (Nat.le_trans hfits hroom)
      writeOver := ?_
      copyOver := ?_ }
  · rw [hwritten, ← hlength, ← List.take_eq_take_min]
  · intro hfits
    have hfitsAll : s.chunks.toList.flatten.length ≤ room := by rwa [hflatten, hlength]
    have hall : front = s.chunks.toList :=
      hfront.isFront.eq_of_length_le (hfront.longest _ (List.prefix_refl _) hfitsAll).length_le
    rw [hwritten, hcopied, hall, hflatten]
    exact ⟨List.take_of_length_le (hlength ▸ hfits), rfl⟩
  · rintro old rfl
    rw [writeOver_eq, Written.inPlace, inPlace_take hwritten, hlength, hdecide hwrittenAll]
  · rintro old rfl
    rw [copyOver_eq, ← hdecide hcopiedAll]
    rfl

def wrapped : ByteSeq := concat (.ofBuffer (.ring [1, 2, 3] [4, 5])) (array [6, 7]) 7

/-- Four bytes of room end inside the second run: the one output cuts it, the other leaves it. -/
theorem built_output_of_wrapped : Built Buffer.Lawful wrapped ∧ wrapped.OutputsInto 4 ∧
    wrapped.writeOver [90, 91, 92, 93] = ([1, 2, 3, 4], false) ∧
    wrapped.copyOver [90, 91, 92, 93] = ([1, 2, 3, 93], false) ∧
    wrapped.writeOver [90, 91, 92, 93, 94, 95, 96, 97] = ([1, 2, 3, 4, 5, 6, 7, 97], true) := by
  have hring : (Buffer.ring [1, 2, 3] [4, 5]).Lawful := ⟨_, Buffer.holds_ring _ _⟩
  have hsize : (Buffer.ring [1, 2, 3] [4, 5]).size ≤ wordMax := by decide
  have harray : ([6, 7] : Bytes).length ≤ wordMax := by decide
  have hbuilt : Built Buffer.Lawful wrapped := .tryConcat (.buffer hring hsize) (.array harray) rfl
  have hbytes : wrapped.toBytes = [1, 2, 3, 4, 5, 6, 7] := hbuilt.tidy.sound.toBytes_eq
  have hcopied : (wrapped.copyInto 4).1.bytes = [1, 2, 3] := by decide +kernel
  have hwrite := (built_output hbuilt 4).writeOver [90, 91, 92, 93] rfl
  have hcopy := (built_output hbuilt 4).copyOver [90, 91, 92, 93] rfl
  have hall := (built_output hbuilt 8).writeOver [90, 91, 92, 93, 94, 95, 96, 97] rfl
  rw [hbytes] at hwrite hall
  rw [hcopied] at hcopy
  exact ⟨hbuilt, built_output hbuilt 4, hwrite, hcopy, hall⟩

end ByteSeq
end StoreClient

import StoreClient.ByteSeq.Text
import StoreClient.Proofs.ByteSeq.Content
import StoreClient.Proofs.Charset.Scan

/-! # Decoding does not depend on the chunks

`Decoder.after c bs` is the state of a decoder that has read `bs`, computed from the bytes alone:
the settled text, the bytes left unread and the surrogate held back.  Reading a chunk leads from
the state after some bytes to the state after those bytes and the chunk (`Decoder.push_after`), so
the chunks fed to a decoder never show in its state (`Decoder.foldl_push_decoder`), and the end of
the input makes of it what the one-shot scan gives (`Decoder.finish_after`).  So the text of a
sequence depends on its bytes alone (`Charset.decode_in_chunks`). -/

namespace StoreClient

namespace Decoder

/-! ### Text put out -/

theorem foldl_push_eq_append (cs : List Char) (s : String) :
    cs.foldl String.push s = s ++ String.ofList cs := by
  induction cs generalizing s with
  | nil => simp
  | cons c cs ih =>
    rw [List.foldl_cons, ih, String.ofList_cons, ← String.append_assoc, String.push_eq_append]

section
variable (d : Decoder)

theorem emit_eq (cs : List Char) : d.emit cs = { d with out := d.out ++ String.ofList cs } := by
  rw [emit, foldl_push_eq_append]

@[simp] theorem emit_nil : d.emit [] = d := rfl

@[simp] theorem emit_emit (as bs : List Char) : (d.emit as).emit bs = d.emit (as ++ bs) := by
  simp [emit]

/-! ### UTF-8 -/

theorem pushPieces_cons (ch : Char) (ps : List Utf8.Piece) :
    d.pushPieces (Utf8.Piece.cons ch ps) = (d.emit [ch]).pushPieces ps := by
  cases ps with
  | nil => rfl
  | cons p ps => rfl

/-- Bytes that are no unit give U+FFFD, unless they end the scan and could become one. -/
theorem pushPieces_broken {bs : Bytes} {ps : List Utf8.Piece} (hb : bs ≠ [])
    (h : ps ≠ [] ∨ Utf8.Piece.truncated ⟨[], bs⟩ = false) :
    d.pushPieces (⟨[], bs⟩ :: ps) = (d.emit [replacement]).pushPieces ps := by
  have hk : ¬(ps.isEmpty && Utf8.Piece.truncated ⟨[], bs⟩) = true := by
    rcases h with h | h <;> simp [h]
  rw [pushPieces, emit_nil, if_neg (by simpa using hb), if_neg hk]

theorem pushPieces_truncated {bs : Bytes} (hb : bs ≠ [])
    (h : Utf8.Piece.truncated ⟨[], bs⟩ = true) :
    d.pushPieces [⟨[], bs⟩] = { d with pending := d.pending ++ bs } := by
  rw [pushPieces, emit_nil, if_neg (by simpa using hb), h]
  rfl

theorem pushPieces_pieces (bs : Bytes) :
    d.pushPieces (Utf8.pieces bs) =
      { d.emit (Utf8.scan bs).1 with pending := d.pending ++ (Utf8.scan bs).2 } := by
  fun_induction Utf8.scan bs generalizing d with
  | case1 =>
    rw [Utf8.pieces_eq_nil_iff.mpr rfl, List.append_nil]
    rfl
  | case2 b bs h ih =>
    rw [Utf8.pieces_of_none bs h,
      pushPieces_broken d (List.cons_ne_nil _ _) (Or.inr (Utf8.truncated_of_none h)), ih]
    rfl
  | case3 b bs rs h begun rest full ih =>
    rw [Utf8.pieces_of_unit h full, pushPieces_cons, ih]
    rfl
  | case4 b bs rs h begun rest part done =>
    have hr : Utf8.pieces (Utf8.spanFit rs bs).2 = [] :=
      Utf8.pieces_eq_nil_iff.mpr (List.isEmpty_iff.mp done)
    rw [Utf8.pieces_of_part h part, hr,
      pushPieces_truncated d (List.cons_ne_nil _ _) (Utf8.truncated_of_part h part)]
    rfl
  | case5 b bs rs h begun rest part more ih =>
    have hr : Utf8.pieces rest ≠ [] := fun e =>
      more (List.isEmpty_iff.mpr (Utf8.pieces_eq_nil_iff.mp e))
    rw [Utf8.pieces_of_part h part, pushPieces_broken d (List.cons_ne_nil _ _) (Or.inl hr), ih]
    rfl

theorem pushUtf8_eq (chunk : Bytes) :
    d.pushUtf8 chunk =
      { d.emit (Utf8.scan (d.pending ++ chunk)).1 with
        pending := (Utf8.scan (d.pending ++ chunk)).2 } := by
  unfold pushUtf8
  by_cases hp : d.pending = []
  · rw [if_pos (List.isEmpty_iff.mpr hp), pushPieces_pieces, hp]
    rfl
  · rw [if_neg (by simpa using hp), pushPieces_pieces]
    rfl

/-! ### UTF-16 -/

theorem foldl_pushUnit (us : List UInt16) :
    us.foldl pushUnit d =
      { d.emit (Utf16.run d.high us).2 with high := (Utf16.run d.high us).1 } := by
  induction us generalizing d with
  | nil => rfl
  | cons u us ih =>
    rw [List.foldl_cons, ih]
    simp only [pushUnit, Utf16.run, emit, List.foldl_append]

/-- However the first unit came to be complete, the units of all bytes are read in order. -/
theorem pushUtf16_eq (order : ByteOrder) (chunk : Bytes) (hp : d.pending.length ≤ 1) :
    d.pushUtf16 order chunk =
      { d.emit (Utf16.run d.high (Utf16.units order (d.pending ++ chunk)).1).2 with
        pending := (Utf16.units order (d.pending ++ chunk)).2
        high := (Utf16.run d.high (Utf16.units order (d.pending ++ chunk)).1).1 } := by
  obtain ⟨c, out, pending, high⟩ := d
  match pending, chunk, hp with
  | [], chunk, _ =>
    simp only [pushUtf16, pushUnits, foldl_pushUnit]
    rfl
  | [x], [], _ => rfl
  | [x], y :: rest, _ =>
    simp only [pushUtf16, pushUnits, foldl_pushUnit]
    simp only [pushUnit, Utf16.run, Utf16.units, emit, List.cons_append, List.nil_append,
      List.foldl_append]

end

/-! ### All charsets -/

/-- The state of a decoder that has read a byte string. -/
def after (c : Charset) (bs : Bytes) : Decoder :=
  match c with
  | .ascii => ⟨c, String.ofList (bs.map Charset.asciiChar), [], none⟩
  | .latin1 => ⟨c, String.ofList (bs.map Charset.latin1Char), [], none⟩
  | .utf8 => ⟨c, String.ofList (Utf8.scan bs).1, (Utf8.scan bs).2, none⟩
  | .utf16 order =>
    let r := Utf16.run none (Utf16.units order bs).1
    ⟨c, String.ofList r.2, (Utf16.units order bs).2, r.1⟩

theorem after_nil (c : Charset) : after c [] = c.decoder := by
  cases c with
  | utf8 =>
    simp only [after, Utf8.scan_nil]
    rfl
  | ascii => rfl
  | latin1 => rfl
  | utf16 order => rfl

/-- Reading a chunk leads from the state after some bytes to the state after those and the chunk. -/
theorem push_after (c : Charset) (bs chunk : Bytes) :
    (after c bs).push chunk = after c (bs ++ chunk) := by
  cases c with
  | ascii =>
    simp only [after, push, emit_eq, List.map_append, String.ofList_append]
  | latin1 =>
    simp only [after, push, emit_eq, List.map_append, String.ofList_append]
  | utf8 =>
    simp only [after, push, pushUtf8_eq, emit_eq]
    rw [Utf8.scan_append bs chunk, String.ofList_append]
  | utf16 order =>
    simp only [after, push]
    rw [pushUtf16_eq _ _ _ (Utf16.length_units_snd_le order bs), Utf16.units_append order bs chunk,
      Utf16.run_append, emit_eq, String.ofList_append]

/-- A decoder is in the state after all bytes, however they were cut into chunks. -/
theorem foldl_push_after (c : Charset) (chunks : List Bytes) (bs : Bytes) :
    chunks.foldl push (after c bs) = after c (bs ++ chunks.flatten) := by
  induction chunks generalizing bs with
  | nil => simp
  | cons chunk chunks ih =>
    rw [List.foldl_cons, push_after, ih, List.flatten_cons, List.append_assoc]

theorem foldl_push_decoder (c : Charset) (chunks : List Bytes) :
    chunks.foldl push c.decoder = after c chunks.flatten := by
  rw [← after_nil, foldl_push_after, List.nil_append]

theorem finish_eq (d : Decoder) :
    d.finish = d.out ++ String.ofList (Utf16.unpaired d.high ++ leftover d.pending) := by
  have h : d.finish = ((d.emit (Utf16.unpaired d.high)).emit (leftover d.pending)).out := by
    obtain ⟨c, out, pending, high⟩ := d
    cases high <;> cases pending <;> rfl
  rw [h, emit_emit, emit_eq]

/-- The end of the input makes of the state what the one-shot scan gives. -/
theorem finish_after (c : Charset) (bs : Bytes) :
    (after c bs).finish = String.ofList (c.decode bs) := by
  rw [finish_eq]
  cases c with
  | ascii => simp [after, Utf16.unpaired, leftover, Charset.decode]
  | latin1 => simp [after, Utf16.unpaired, leftover, Charset.decode]
  | utf8 =>
    show String.ofList (Utf8.scan bs).1 ++ String.ofList ([] ++ leftover (Utf8.scan bs).2) =
      String.ofList (Utf8.decode bs)
    rw [Utf8.decode_eq_scan, List.nil_append, String.ofList_append]
  | utf16 order =>
    show _ = String.ofList (Utf16.decodeUnits (Utf16.units order bs).1 ++ leftover _)
    rw [Utf16.decodeUnits_eq_run, List.append_assoc]
    exact String.ofList_append.symm

theorem finish_foldl_push (c : Charset) (chunks : List Bytes) :
    (chunks.foldl push c.decoder).finish = String.ofList (c.decode chunks.flatten) := by
  rw [foldl_push_decoder, finish_after]

end Decoder

/-! ### Sequences -/

theorem ByteSeq.Sound.decode_eq {s : ByteSeq} (h : s.Sound) (c : Charset) :
    s.decode c = String.ofList (c.decode s.content) := by
  unfold decode
  split
  · next bs hc => rw [h.contiguous?_eq hc]
  · next hc => rw [Chunks.foldl_eq, Decoder.finish_foldl_push, h.flatten_chunks]

/-- Decoding does not depend on where the bytes are cut: a decoder fed chunks gives the one-shot
text of them end to end, and a sequence the one-shot text of its bytes, whatever its shape. -/
theorem Charset.decode_in_chunks (c : Charset) :
    (∀ chunks : List Bytes,
      (chunks.foldl Decoder.push c.decoder).finish = String.ofList (c.decode chunks.flatten)) ∧
    (∀ s : ByteSeq, s.Sound → s.decode c = String.ofList (c.decode s.toBytes)) ∧
    ∀ s t : ByteSeq, s.Sound → t.Sound → s.toBytes = t.toBytes → s.decode c = t.decode c := by
  have hseq : ∀ s : ByteSeq, s.Sound → s.decode c = String.ofList (c.decode s.toBytes) := by
    intro s hs
    rw [hs.decode_eq, hs.toBytes_eq]
  refine ⟨Decoder.finish_foldl_push c, hseq, ?_⟩
  intro s t hs ht h
  rw [hseq s hs, hseq t ht, h]

/-- The four bytes of a surrogate pair: the first apart, the others around the end of a ring. -/
def ByteSeq.cutPair : ByteSeq :=
  concat (array [0xD8]) (buffer ⟨Buffer.ring [0x3D, 0xDE] [0x00], 0, 3⟩) 4

theorem ByteSeq.sound_cutPair : cutPair.Sound := by
  have hr : (Buffer.ring [0x3D, 0xDE] [0x00]).Lawful := ⟨_, Buffer.holds_ring _ _⟩
  refine ⟨?_, ⟨hr, ?_, ?_⟩, rfl, ?_⟩
  · show 1 ≤ wordMax
    decide
  · show 3 ≤ 3
    decide
  · show 3 ≤ wordMax
    decide
  · decide

theorem Charset.decode_in_chunks_of_cutPair :
    ByteSeq.cutPair.Sound ∧ (ByteSeq.array [0xD8, 0x3D, 0xDE, 0x00]).Sound ∧
      ByteSeq.cutPair.toBytes = (ByteSeq.array [0xD8, 0x3D, 0xDE, 0x00]).toBytes ∧
        ByteSeq.cutPair.decode (.utf16 .big) = "😀" := by
  have hs := ByteSeq.sound_cutPair
  have ht : (ByteSeq.array [0xD8, 0x3D, 0xDE, 0x00]).Sound := by
    show 4 ≤ wordMax
    decide
  have hb : ByteSeq.cutPair.toBytes = (ByteSeq.array [0xD8, 0x3D, 0xDE, 0x00]).toBytes := by
    rw [hs.toBytes_eq, ht.toBytes_eq]
    decide
  refine ⟨hs, ht, hb, ?_⟩
  rw [(Charset.decode_in_chunks (.utf16 .big)).2.2 _ _ hs ht hb]
  rfl

end StoreClient

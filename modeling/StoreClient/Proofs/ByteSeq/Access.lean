import StoreClient.ByteSeq.Reader
import StoreClient.Proofs.ByteSeq.Shape

/-! # Access by position

The run at a position is found by narrowing one range on the way down (`ByteSeq.runAt`), and a
traversal from that position opens frame after frame (`Chunks.next?`).  In a sound sequence both
come to the same run (`Chunks.next?_eq_runAt`), so a single byte, the run under a cursor and the runs
for a vectored write are all read off the traversal.

A caller of a cursor takes some bytes of the run that it shows and moves on by as many
(`SeqReader.Reads`).  Whatever is taken each time, the bytes come in order and none is left out
(`SeqReader.Reads.take_eq`), and every such reading can be led to the end (`ByteSeq.built_access`). -/

namespace StoreClient

/-! ### The first run of a frame -/

theorem Frame.View.ofRun_of_ne_nil {chunk : Bytes} (h : chunk ≠ []) (frames : List Frame) :
    ofRun chunk frames = .run chunk frames := by
  unfold ofRun
  rw [if_neg (mt List.isEmpty_iff.mp h)]

namespace Chunks

/-- A range that lies in place is one run. -/
theorem next?_of_window {s : ByteSeq} {bs : Bytes} {pos stop : Nat} (hpos : pos < stop)
    (hstop : stop ≤ bs.length)
    (hview : Frame.view ⟨s, pos, stop⟩ = .ofRun (bs.window pos stop) []) (fs : Chunks) :
    ∃ rest, next? (⟨s, pos, stop⟩ :: fs) = some (bs.window pos stop, rest) := by
  have hne : bs.window pos stop ≠ [] := by
    rw [ne_eq, ← List.length_eq_zero_iff, Bytes.length_window_of_le hstop]
    omega
  rw [Frame.View.ofRun_of_ne_nil hne []] at hview
  exact ⟨_, next?_of_run hview fs⟩

/-- The first run that a traversal of a range shows is the one that a look-up at its start finds. -/
theorem next?_eq_runAt {s : ByteSeq} (h : s.Sound) {pos stop : Nat} (hpos : pos < stop)
    (hstop : stop ≤ s.length) (fs : Chunks) :
    ∃ rest, next? (⟨s, pos, stop⟩ :: fs) = some (s.runAt pos stop, rest) := by
  have hopen : ¬stop ≤ pos := Nat.not_le.mpr hpos
  induction s generalizing pos stop fs with
  | empty => exact absurd hstop (Nat.not_le.mpr (Nat.zero_lt_of_lt hpos))
  | array bs => exact next?_of_window hpos hstop (by simp only [Frame.view, hopen, if_false]) fs
  | text t => exact next?_of_window hpos hstop (by simp only [Frame.view, hopen, if_false]) fs
  | buffer v =>
    obtain ⟨hb, hv, _⟩ := h
    have hlast : stop ≤ v.length := hstop
    have hne : (v.buffer.chunkAt (v.offset + pos)).take (stop - pos) ≠ [] := by
      rw [ne_eq, List.take_eq_nil_iff, not_or]
      exact ⟨by omega, hb.holds.chunk_ne_nil _ (by omega)⟩
    have hview : ∃ rest, Frame.view ⟨.buffer v, pos, stop⟩ =
        .run ((v.buffer.chunkAt (v.offset + pos)).take (stop - pos)) rest := by
      simp only [Frame.view, hopen, if_false, Frame.width]
      exact ⟨_, Frame.View.ofRun_of_ne_nil hne _⟩
    obtain ⟨rest, hview⟩ := hview
    exact ⟨_, next?_of_run hview fs⟩
  | concat head tail n ihh iht =>
    obtain ⟨hh, ht, hn, _⟩ := h
    have hlast : stop ≤ n := hstop
    have hview : Frame.view ⟨.concat head tail n, pos, stop⟩ = .parts
        ((if pos < head.length then [⟨head, pos, min stop head.length⟩] else []) ++
          if head.length < stop then
            [⟨tail, max pos head.length - head.length, stop - head.length⟩] else []) := by
      simp only [Frame.view, hopen, if_false]
    rw [next?_of_parts hview, ByteSeq.runAt]
    by_cases hp : pos < head.length
    · have hmin : pos < min stop head.length := Nat.lt_min.mpr ⟨hpos, hp⟩
      rw [if_pos hp, if_pos hp]
      exact ihh hh hmin (Nat.min_le_right _ _) _ (Nat.not_le.mpr hmin)
    · have hlt : pos - head.length < stop - head.length := by omega
      have htail : head.length < stop := by omega
      have hmax : max pos head.length - head.length = pos - head.length := by omega
      rw [if_neg hp, if_neg hp, if_pos htail, hmax]
      exact iht ht hlt (by omega) _ (Nat.not_le.mpr hlt)
  | slice inner offset n ih =>
    obtain ⟨hi, hr⟩ := h
    have hlast : stop ≤ n := hstop
    have hview : Frame.view ⟨.slice inner offset n, pos, stop⟩ =
        .parts [⟨inner, offset + pos, offset + stop⟩] := by
      simp only [Frame.view, hopen, if_false]
    rw [next?_of_parts hview, ByteSeq.runAt, Nat.add_comm pos, Nat.add_comm stop]
    have hlt : offset + pos < offset + stop := Nat.add_lt_add_left hpos offset
    exact ih hi hlt (by omega) _ (Nat.not_le.mpr hlt)

end Chunks

/-! ### Single bytes and runs -/

namespace ByteSeq

variable {s : ByteSeq}

theorem Sound.chunksFrom (h : s.Sound) (pos : Nat) : (s.chunksFrom pos).Sound := by
  intro f hf
  rw [List.mem_singleton.mp hf]
  exact ⟨h, Nat.le_refl _⟩

theorem Sound.content_chunksFrom (h : s.Sound) (pos : Nat) :
    (s.chunksFrom pos).content = s.content.drop pos := by
  show s.content.window pos s.length ++ [] = s.content.drop pos
  rw [List.append_nil, ← h.length_content, Bytes.window, ← List.length_drop, List.take_length]

theorem Sound.next?_chunksFrom (h : s.Sound) {pos : Nat} (hpos : pos < s.length) :
    ∃ rest, (s.chunksFrom pos).next? = some (s.chunkAt pos, rest) :=
  Chunks.next?_eq_runAt h hpos (Nat.le_refl _) []

/-- The run at a position is not empty, and is what the content goes on with. -/
theorem Sound.chunkAt_spec (h : s.Sound) {pos : Nat} (hpos : pos < s.length) :
    s.chunkAt pos ≠ [] ∧ s.chunkAt pos <+: s.content.drop pos := by
  obtain ⟨rest, hnext⟩ := h.next?_chunksFrom hpos
  obtain ⟨hcontent, -⟩ := Chunks.content_of_next?_eq_some (h.chunksFrom pos) hnext
  rw [h.content_chunksFrom] at hcontent
  exact ⟨(Chunks.next?_eq_some hnext).1, _, hcontent.symm⟩

theorem Sound.get_of_lt (h : s.Sound) {i : Nat} (hi : i < s.content.length) :
    s.get i = .ok s.content[i] := by
  have hlt : i < s.length := by rwa [← h.length_content]
  obtain ⟨hne, rest, hrest⟩ := h.chunkAt_spec hlt
  obtain ⟨b, bs, hb⟩ := List.exists_cons_of_ne_nil hne
  rw [hb, List.cons_append, List.drop_eq_getElem_cons hi] at hrest
  rw [get, if_neg (Nat.not_le.mpr hlt), hb, (List.cons.inj hrest).1]

end ByteSeq

/-! ### Under a cursor -/

namespace SeqReader

/-- The cursor that a caller holds after an attempt to move on: a panic leaves it where it was. -/
def after (r : SeqReader) (n : Nat) : SeqReader :=
  match r.advance n with
  | .ok r' => r'
  | .error _ => r

/-- A caller takes bytes from the front of the run at the cursor and moves on by as many, over and
over; an attempt to move past the end may come in between. -/
inductive Reads : SeqReader → Bytes → SeqReader → Prop
  | done (r : SeqReader) : Reads r [] r
  | take {r r' last : SeqReader} {k : Nat} {bs : Bytes} (shown : k ≤ r.chunk.length)
    (moved : r.advance k = .ok r') (rest : Reads r' bs last) : Reads r (r.chunk.take k ++ bs) last
  | tooFar {r last : SeqReader} {n : Nat} {bs : Bytes} (past : r.remaining < n)
    (rest : Reads (r.after n) bs last) : Reads r bs last

variable {r r' last : SeqReader} {n k : Nat} {bs : Bytes}

theorem advance_of_le (h : n ≤ r.remaining) :
    ∃ r', r.advance n = .ok r' ∧ r'.seq = r.seq ∧ r'.position = r.position + n := by
  unfold advance
  rw [dif_pos h]
  exact ⟨_, rfl, rfl, rfl⟩

theorem advance_eq_ok (h : r.advance n = .ok r') :
    r'.seq = r.seq ∧ r'.position = r.position + n := by
  unfold advance at h
  split at h
  · obtain rfl := Except.ok.inj h
    exact ⟨rfl, rfl⟩
  · exact nomatch h

theorem advance_of_lt (h : r.remaining < n) :
    r.advance n = .error (.panic (.advancePastEnd n r.remaining)) :=
  dif_neg (Nat.not_le.mpr h)

theorem after_of_lt (h : r.remaining < n) : r.after n = r := by
  rw [after, advance_of_lt h]

theorem remaining_eq_zero_iff : r.remaining = 0 ↔ r.position = r.seq.length := by
  have := r.position_le
  unfold remaining
  omega

theorem chunk_of_lt (h : r.position < r.seq.length) : r.chunk = r.seq.chunkAt r.position :=
  if_neg (Nat.not_le.mpr h)

theorem chunk_of_end (h : r.position = r.seq.length) : r.chunk = [] :=
  if_pos (Nat.le_of_eq h.symm)

theorem chunk_prefix_drop (h : r.seq.Sound) : r.chunk <+: r.seq.content.drop r.position := by
  rcases Nat.lt_or_eq_of_le r.position_le with hlt | hend
  · rw [chunk_of_lt hlt]
    exact (h.chunkAt_spec hlt).2
  · rw [chunk_of_end hend]
    exact List.nil_prefix

theorem chunk_eq_nil_iff (h : r.seq.Sound) : r.chunk = [] ↔ r.position = r.seq.length := by
  constructor
  · intro hnil
    by_contra hne
    have hlt := Nat.lt_of_le_of_ne r.position_le hne
    rw [chunk_of_lt hlt] at hnil
    exact (h.chunkAt_spec hlt).1 hnil
  · exact chunk_of_end

theorem length_chunk_le (h : r.seq.Sound) : r.chunk.length ≤ r.remaining := by
  have := (chunk_prefix_drop h).length_le
  rwa [List.length_drop, h.length_content] at this

theorem Reads.take_eq (h : r.Reads bs last) (hs : r.seq.Sound) :
    last.seq = r.seq ∧ r.position ≤ last.position ∧
      bs = r.seq.content.window r.position last.position := by
  induction h with
  | done r => exact ⟨rfl, Nat.le_refl _, (Bytes.window_of_le _ (Nat.le_refl _)).symm⟩
  | @take r r' last k bs shown moved rest ih =>
    obtain ⟨hseq, hpos⟩ := advance_eq_ok moved
    rw [hseq] at ih
    obtain ⟨hlast, hle, hbs⟩ := ih hs
    have hfront : r.chunk.take k <+: r.seq.content.drop r.position :=
      (List.take_prefix _ _).trans (chunk_prefix_drop hs)
    have hlen : (r.chunk.take k).length = k := List.length_take_of_le shown
    have hwindow := Bytes.eq_window_of_prefix hfront
    rw [hlen] at hwindow
    refine ⟨hlast, by omega, ?_⟩
    rw [hbs, hpos, hwindow, Bytes.window_append_window _ (Nat.le_add_right _ _) (hpos ▸ hle)]
  | @tooFar r last n bs past rest ih =>
    rw [after_of_lt past] at ih
    exact ih hs

/-- Taking whole runs leads from every position to the end. -/
theorem exists_reads_end (h : r.seq.Sound) : ∃ bs last, r.Reads bs last ∧ last.remaining = 0 := by
  induction hm : r.remaining using Nat.strongRecOn generalizing r with
  | ind m ih =>
    by_cases hend : r.remaining = 0
    · exact ⟨[], r, .done r, hend⟩
    have hne : r.chunk ≠ [] := by
      rw [ne_eq, chunk_eq_nil_iff h, ← remaining_eq_zero_iff]
      exact hend
    have hpos := List.length_pos_iff.mpr hne
    obtain ⟨r', hmoved, hseq, hposition⟩ := advance_of_le (length_chunk_le h)
    have hless : r'.remaining < m := by
      unfold remaining at hm ⊢ hend
      rw [hseq, hposition]
      omega
    obtain ⟨bs, last, hreads, hlast⟩ := ih _ hless (hseq ▸ h) rfl
    exact ⟨_, last, .take (Nat.le_refl _) hmoved hreads, hlast⟩

/-- What a cursor shows and how it moves, over a sequence that holds `xs`. -/
structure Shows (r : SeqReader) (xs : Bytes) : Prop where
  flatten_runs : (r.seq.chunksFrom r.position).toList.flatten = xs.drop r.position
  chunk_eq_nil_iff : r.chunk = [] ↔ r.position = xs.length
  head?_runs : r.position < xs.length →
    (r.seq.chunksFrom r.position).toList.head? = some r.chunk
  vectored_eq : ∀ slots, r.chunksVectored slots = (r.seq.chunksFrom r.position).toList.take slots
  length_vectored : ∀ slots, (r.chunksVectored slots).length =
    min slots (r.seq.chunksFrom r.position).toList.length
  remaining_eq : r.remaining = xs.length - r.position
  advance_of_le : ∀ n, n ≤ r.remaining →
    ∃ r', r.advance n = .ok r' ∧ r'.seq = r.seq ∧ r'.position = r.position + n
  advance_of_lt : ∀ n, r.remaining < n →
    r.advance n = .error (.panic (.advancePastEnd n r.remaining)) ∧ r.after n = r
  length_chunk_le : r.chunk.length ≤ r.remaining

theorem shows_content (h : r.seq.Sound) : r.Shows r.seq.content where
  flatten_runs := by rw [Chunks.flatten_toList (h.chunksFrom _), h.content_chunksFrom]
  chunk_eq_nil_iff := by rw [h.length_content, SeqReader.chunk_eq_nil_iff h]
  head?_runs hlt := by
    rw [h.length_content] at hlt
    obtain ⟨rest, hnext⟩ := h.next?_chunksFrom hlt
    rw [chunk_of_lt hlt, Chunks.toList_of_some hnext, List.head?_cons]
  vectored_eq slots := Chunks.takeRuns_eq _ slots
  length_vectored slots := by rw [chunksVectored, Chunks.takeRuns_eq, List.length_take]
  remaining_eq := by rw [h.length_content, remaining]
  advance_of_le n hn := SeqReader.advance_of_le hn
  advance_of_lt n hn := ⟨SeqReader.advance_of_lt hn, after_of_lt hn⟩
  length_chunk_le := SeqReader.length_chunk_le h

end SeqReader

namespace ByteSeq

variable {s : ByteSeq}

/-- Each position gives its byte of `xs`, and past the end the range that is missing is named. -/
structure Indexes (s : ByteSeq) (xs : Bytes) : Prop where
  length_eq : s.length = xs.length
  get_of_lt : ∀ i (hi : i < xs.length), s.get i = .ok xs[i]
  get_of_le : ∀ i, xs.length ≤ i →
    s.get i = .error (.error (.outOfBounds i (saturatingAdd i 1) xs.length))

theorem Sound.indexes (h : s.Sound) : s.Indexes s.content where
  length_eq := h.length_content.symm
  get_of_lt _ hi := h.get_of_lt hi
  get_of_le i hi := by
    rw [h.length_content] at hi ⊢
    exact if_pos hi

/-- Sequences that the operations build over lawful buffers give single bytes, the run under a
cursor at any position and the runs for a vectored write as a traversal shows them.  However a
caller takes bytes of the run under a cursor and moves on, it comes to the end with all the bytes,
and from wherever it has come to, it can. -/
theorem built_access (h : Built Buffer.Lawful s) :
    s.Indexes s.toBytes ∧ (∀ r : SeqReader, r.seq = s → r.Shows s.toBytes) ∧
      ∀ bs r, s.reader.Reads bs r →
        bs = s.toBytes.take r.position ∧ (r.remaining = 0 → bs = s.toBytes) ∧
          ∃ more last, r.Reads more last ∧ last.remaining = 0 := by
  have hs := h.tidy.sound
  rw [hs.toBytes_eq]
  refine ⟨hs.indexes, ?_, ?_⟩
  · rintro r rfl
    exact SeqReader.shows_content hs
  · intro bs r hreads
    obtain ⟨hseq, -, hbs⟩ := hreads.take_eq hs
    have htake : bs = s.content.take r.position := hbs
    have hrs : r.seq = s := hseq
    refine ⟨htake, ?_, SeqReader.exists_reads_end (hrs ▸ hs)⟩
    intro hend
    rw [SeqReader.remaining_eq_zero_iff, hrs, ← hs.length_content] at hend
    rw [htake, hend, List.take_length]

def spliced : ByteSeq := concat (.ofBuffer (.segments [[1, 2], [3], [4, 5]])) (array [6, 7]) 7

theorem built_access_of_spliced :
    (slice spliced 1 5).get 3 = .ok 5 ∧
      (slice spliced 1 5).get 5 = .error (.error (.outOfBounds 5 6 5)) ∧
      (∀ r : SeqReader, r.seq = slice spliced 1 5 → r.Shows [2, 3, 4, 5, 6]) ∧
      ∃ r, (slice spliced 1 5).reader.Reads [2, 3, 4] r ∧ r.position = 3 ∧
        ∃ more last, r.Reads more last ∧ last.remaining = 0 := by
  have hsegments : (Buffer.segments [[1, 2], [3], [4, 5]]).Lawful := ⟨_, Buffer.holds_segments _⟩
  have hsize : (Buffer.segments [[1, 2], [3], [4, 5]]).size ≤ wordMax := by decide
  have hlength : ([6, 7] : Bytes).length ≤ wordMax := by decide
  have hspliced : Built Buffer.Lawful spliced :=
    .tryConcat (.buffer hsegments hsize) (.array hlength) rfl
  have hcut : spliced.subSeq 1 6 = .ok (slice spliced 1 5) := rfl
  have hrange : Built Buffer.Lawful (slice spliced 1 5) := .subSeq hspliced hcut
  have hbytes : (slice spliced 1 5).toBytes = [2, 3, 4, 5, 6] := hrange.tidy.sound.toBytes_eq
  obtain ⟨hget, hshows, hreads⟩ := built_access hrange
  rw [hbytes] at hget hshows
  -- the run of one byte, an attempt to skip six, the next run, and half of the one after it
  have hread : ∃ r, (slice spliced 1 5).reader.Reads [2, 3, 4] r ∧ r.position = 3 :=
    ⟨_, .take (k := 1) (by decide) rfl <| .tooFar (n := 6) (by decide) <|
      .take (k := 1) (by decide) rfl <| .take (k := 1) (by decide) rfl <| .done _, rfl⟩
  obtain ⟨r, hread, hposition⟩ := hread
  exact ⟨hget.get_of_lt 3 (by decide), hget.get_of_le 5 (by decide), hshows, r, hread, hposition,
    (hreads _ _ hread).2.2⟩

end ByteSeq
end StoreClient

import StoreClient.Proofs.ByteSeq.Content

/-! # The shape of a sequence

Sequences are built by a few operations (`ByteSeq.Built`), and whatever the buffers under them
answer, each of these keeps a tidy shape (`ByteSeq.Tidy`): a window lies inside its buffer, a
concatenation has two non-empty parts and a joint length that fits a word, and a range is a proper
and non-empty range of a concatenation.

Reading adds and subtracts nested offsets in words.  `ByteSeq.checkedRunAt` and `Frame.checkedView`
are the two ways to read with every sum, difference and range checked.  On a tidy sequence no check
ever fails (`ByteSeq.built_shape`), up to lengths of `wordMax` and even if a buffer answers
differently each time that it is asked (`Chunks.Reaches`). -/

namespace StoreClient

/-! ### Checked reading -/

/-- The range of an array, if it lies inside. -/
def Bytes.checkedWindow (bs : Bytes) (start stop : Nat) : Option Bytes :=
  if start ≤ stop ∧ stop ≤ bs.length then some (bs.window start stop) else none

/-- `ByteSeq.runAt` on words: nothing, if a sum or a difference leaves them. -/
def ByteSeq.checkedRunAt : ByteSeq → Nat → Nat → Option Bytes
  | empty, _, _ => some []
  | array bs, pos, stop => bs.checkedWindow pos stop
  | text t, pos, stop => t.bytes.checkedWindow pos stop
  | buffer v, pos, stop => do
    let inBuffer ← checkedAdd v.offset pos
    let room ← checkedSub stop pos
    return (v.buffer.chunkAt inBuffer).take room
  | slice inner offset _, pos, stop => do
    let pos ← checkedAdd pos offset
    let stop ← checkedAdd stop offset
    inner.checkedRunAt pos stop
  | concat head tail _, pos, stop =>
    if pos < head.length then head.checkedRunAt pos (min stop head.length)
    else do
      let pos ← checkedSub pos head.length
      let stop ← checkedSub stop head.length
      tail.checkedRunAt pos stop

namespace Frame

/-- The frame in the tail of a concatenation whose head is `split` long. -/
def checkedTail (f : Frame) (tail : ByteSeq) (split : Nat) : Option (List Frame) :=
  if split < f.stop then do
    let start ← checkedSub (max f.start split) split
    let stop ← checkedSub f.stop split
    return [⟨tail, start, stop⟩]
  else some []

/-- `Frame.view` on words: nothing, if a sum or a difference leaves them. -/
def checkedView (f : Frame) : Option View :=
  if f.stop ≤ f.start then some (.parts [])
  else match f.seq with
    | .empty => some (.parts [])
    | .array bs => (bs.checkedWindow f.start f.stop).map (View.ofRun · [])
    | .text t => (t.bytes.checkedWindow f.start f.stop).map (View.ofRun · [])
    | .buffer v => do
      let inBuffer ← checkedAdd v.offset f.start
      let room ← checkedSub f.stop f.start
      let chunk := (v.buffer.chunkAt inBuffer).take room
      let next ← checkedAdd f.start chunk.length
      return .ofRun chunk (if next < f.stop then [⟨f.seq, next, f.stop⟩] else [])
    | .slice inner offset _ => do
      let start ← checkedAdd offset f.start
      let stop ← checkedAdd offset f.stop
      return .parts [⟨inner, start, stop⟩]
    | .concat head tail _ => do
      let inTail ← f.checkedTail tail head.length
      return .parts <|
        (if f.start < head.length then [⟨head, f.start, min f.stop head.length⟩] else []) ++ inTail

/-- The frame, if its buffer answers so this time. -/
def answering (f : Frame) (answer : Nat → Bytes) : Frame :=
  match f.seq with
  | .buffer v => { f with seq := .buffer { v with buffer := { v.buffer with chunkAt := answer } } }
  | _ => f

end Frame

/-- A traversal of the frames comes to a frame, buffers answering as they like each time. -/
inductive Chunks.Reaches : Chunks → Frame → Prop
  | head (f : Frame) (fs : Chunks) (answer : Nat → Bytes) : Reaches (f :: fs) (f.answering answer)
  | rest {f g : Frame} {fs : Chunks} (answer : Nat → Bytes)
    (next : Reaches ((f.answering answer).view.rest ++ fs) g) : Reaches (f :: fs) g

/-! ### Tidy sequences -/

/-- The window lies inside its buffer, as long as that said it is. -/
structure BufferView.Within (v : BufferView) : Prop where
  inside : v.offset + v.length ≤ v.buffer.size
  word : v.buffer.size ≤ wordMax

namespace ByteSeq

/-- Two non-empty parts, whose joint length is right and fits a word. -/
structure Joins (head tail : ByteSeq) (n : Nat) : Prop where
  head_pos : 0 < head.length
  tail_pos : 0 < tail.length
  sum : n = head.length + tail.length
  word : n ≤ wordMax

/-- A proper and non-empty range of a concatenation. -/
structure Cuts (inner : ByteSeq) (offset n : Nat) : Prop where
  ofConcat : ∃ head tail m, inner = .concat head tail m
  pos : 0 < n
  proper : n < inner.length
  inside : offset + n ≤ inner.length

/-- Every node has the shape that the operations give it, over buffers that are allowed. -/
def Tidy (allowed : Buffer → Prop) : ByteSeq → Prop
  | empty => True
  | array bs => bs.length ≤ wordMax
  | text t => t.bytes.length ≤ wordMax
  | buffer v => allowed v.buffer ∧ v.Within
  | concat head tail n => head.Tidy allowed ∧ tail.Tidy allowed ∧ Joins head tail n
  | slice inner offset n => inner.Tidy allowed ∧ Cuts inner offset n

/-- The sequences that the operations build, over buffers that are allowed.  Arrays, texts and
buffers are as long as a word can say. -/
inductive Built (allowed : Buffer → Prop) : ByteSeq → Prop
  | empty : Built allowed .empty
  | array {bs : Bytes} (word : bs.length ≤ wordMax) : Built allowed (.array bs)
  | buffer {b : Buffer} (lawful : allowed b) (word : b.size ≤ wordMax) :
    Built allowed (.ofBuffer b)
  | text {c : Charset} {cs : List Char} (word : (c.encode cs).length ≤ wordMax) :
    Built allowed (.encode c cs)
  | tryConcat {s t r : ByteSeq} (left : Built allowed s) (right : Built allowed t)
    (ok : s.tryConcat t = .ok r) : Built allowed r
  | append {s t r : ByteSeq} (left : Built allowed s) (right : Built allowed t)
    (ok : s.append t = .ok r) : Built allowed r
  | concatAll {parts : List ByteSeq} {r : ByteSeq} (all : ∀ p ∈ parts, Built allowed p)
    (ok : ByteSeq.concatAll parts = .ok r) : Built allowed r
  | subSeq {s r : ByteSeq} {start stop : Nat} (of : Built allowed s)
    (ok : s.subSeq start stop = .ok r) : Built allowed r
  | copy {s r : ByteSeq} (of : Built allowed s) (ok : s.copy = .ok r) : Built allowed r

/-! ### Each operation keeps the shape -/

variable {allowed : Buffer → Prop} {s t r : ByteSeq}

theorem Tidy.length_le (h : s.Tidy allowed) : s.length ≤ wordMax := by
  induction s with
  | empty => exact Nat.zero_le _
  | array bs => exact h
  | text t => exact h
  | buffer v =>
    obtain ⟨_, hv⟩ := h
    have hinside := hv.inside
    have hword := hv.word
    show v.length ≤ wordMax
    omega
  | concat head tail n ihh iht => exact h.2.2.word
  | slice inner offset n ih =>
    obtain ⟨hi, hr⟩ := h
    exact Nat.le_trans (Nat.le_of_lt hr.proper) (ih hi)

/-- Over lawful buffers a tidy sequence is sound. -/
theorem Tidy.sound (h : s.Tidy Buffer.Lawful) : s.Sound := by
  induction s with
  | empty => exact trivial
  | array bs => exact h
  | text t => exact h
  | buffer v => exact ⟨h.1, h.2.inside, h.2.word⟩
  | concat head tail n ihh iht =>
    obtain ⟨hh, ht, hj⟩ := h
    exact ⟨ihh hh, iht ht, hj.sum, hj.word⟩
  | slice inner offset n ih => exact ⟨ih h.1, h.2.inside⟩

theorem Tidy.mono {allowed' : Buffer → Prop} (weaker : ∀ b, allowed b → allowed' b)
    (h : s.Tidy allowed) : s.Tidy allowed' := by
  induction s with
  | empty => exact trivial
  | array bs => exact h
  | text t => exact h
  | buffer v => exact ⟨weaker _ h.1, h.2⟩
  | concat head tail n ihh iht => exact ⟨ihh h.1, iht h.2.1, h.2.2⟩
  | slice inner offset n ih => exact ⟨ih h.1, h.2⟩

theorem pos_of_isEmpty (h : ¬s.isEmpty = true) : 0 < s.length := by
  rw [isEmpty_iff] at h
  exact Nat.pos_of_ne_zero h

theorem Tidy.tryConcat (hs : s.Tidy allowed) (ht : t.Tidy allowed) (h : s.tryConcat t = .ok r) :
    r.Tidy allowed := by
  unfold ByteSeq.tryConcat at h
  split at h
  · obtain rfl := Except.ok.inj h
    exact ht
  next hse =>
  split at h
  · obtain rfl := Except.ok.inj h
    exact hs
  next hte =>
  split at h
  · next n hn =>
    obtain rfl := Except.ok.inj h
    obtain ⟨hsum, hword⟩ := checkedAdd_eq_some_iff.mp hn
    exact ⟨hs, ht, pos_of_isEmpty hse, pos_of_isEmpty hte, hsum.symm, hword⟩
  · exact nomatch h

theorem tryConcat_of_append (h : s.append t = .ok r) : s.tryConcat t = .ok r := by
  unfold ByteSeq.append at h
  split at h
  · next hr =>
    rw [hr]
    exact congrArg Except.ok (Except.ok.inj h)
  · exact nomatch h

theorem Tidy.foldlM_append {parts : List ByteSeq} (hs : s.Tidy allowed)
    (hp : ∀ p ∈ parts, p.Tidy allowed) (h : parts.foldlM ByteSeq.append s = .ok r) :
    r.Tidy allowed := by
  induction parts generalizing s with
  | nil =>
    obtain rfl := Except.ok.inj h
    exact hs
  | cons p parts ih =>
    rw [List.foldlM_cons] at h
    cases ha : s.append p with
    | error e =>
      rw [ha] at h
      exact nomatch h
    | ok joint =>
      rw [ha] at h
      have hjoint := hs.tryConcat (hp p List.mem_cons_self) (tryConcat_of_append ha)
      exact ih hjoint (fun q hq => hp q (List.mem_cons_of_mem p hq)) h

theorem Tidy.subSeq {start stop : Nat} (hs : s.Tidy allowed) (h : s.subSeq start stop = .ok r) :
    r.Tidy allowed := by
  unfold ByteSeq.subSeq at h
  split at h
  · exact nomatch h
  next hbounds =>
  split at h
  · obtain rfl := Except.ok.inj h
    exact trivial
  next hne =>
  split at h
  · obtain rfl := Except.ok.inj h
    exact hs
  next hall =>
  obtain rfl := Except.ok.inj h
  have hlt : start < stop := by omega
  have hstop : stop ≤ s.length := by omega
  have hproper : stop - start < s.length := by omega
  have hlen := hs.length_le
  cases s with
  | empty => exact trivial
  | array bs =>
    show (bs.window start stop).length ≤ wordMax
    rw [Bytes.length_window_of_le hstop]
    omega
  | text t =>
    show (t.bytes.window start stop).length ≤ wordMax
    rw [Bytes.length_window_of_le hstop]
    omega
  | buffer v =>
    obtain ⟨hallowed, hv⟩ := hs
    have hinside := hv.inside
    have hlast : stop ≤ v.length := hstop
    refine ⟨hallowed, ?_, hv.word⟩
    show v.offset + start + (stop - start) ≤ v.buffer.size
    omega
  | concat head tail n => exact ⟨hs, ⟨_, _, _, rfl⟩, Nat.sub_pos_of_lt hlt, hproper, by omega⟩
  | slice inner offset n =>
    -- the range is one of the concatenation below, never of the range itself
    obtain ⟨hi, hc⟩ := hs
    have hinside := hc.inside
    have hlast : stop ≤ n := hstop
    have hshorter : stop - start < n := hproper
    exact ⟨hi, hc.ofConcat, Nat.sub_pos_of_lt hlt, Nat.lt_trans hshorter hc.proper, by omega⟩

theorem Tidy.copy (hs : s.Tidy allowed) (h : s.copy = .ok r) : r.Tidy allowed := by
  unfold ByteSeq.copy gather at h
  split at h
  · obtain rfl := Except.ok.inj h
    have hbytes : s.toBytes.length ≤ s.chunks.width := Chunks.length_bytes_le _
    have hwidth : s.chunks.width = s.length := by simp [chunks, chunksFrom, Frame.width]
    show s.toBytes.length ≤ wordMax
    exact Nat.le_trans hbytes (hwidth ▸ hs.length_le)
  · cases h

theorem Built.tidy (h : Built allowed s) : s.Tidy allowed := by
  induction h with
  | empty => exact trivial
  | array word => exact word
  | buffer lawful word => exact ⟨lawful, Nat.le_of_eq (Nat.zero_add _), word⟩
  | text word => exact word
  | tryConcat left right ok ihl ihr => exact ihl.tryConcat ihr ok
  | append left right ok ihl ihr => exact ihl.tryConcat ihr (tryConcat_of_append ok)
  | concatAll all ok ih =>
    have hempty : ByteSeq.empty.Tidy allowed := trivial
    exact hempty.foldlM_append ih ok
  | subSeq of ok ih => exact ih.subSeq ok
  | copy of ok ih => exact ih.copy ok

end ByteSeq

/-! ### Reading a tidy sequence -/

theorem Bytes.checkedWindow_of_le {bs : Bytes} {start stop : Nat} (h : start ≤ stop)
    (hstop : stop ≤ bs.length) : bs.checkedWindow start stop = some (bs.window start stop) :=
  if_pos ⟨h, hstop⟩

variable {allowed : Buffer → Prop}

theorem ByteSeq.passesDown_tidy : PassesDown (Tidy allowed) where
  concat := fun ⟨hh, ht, hj⟩ => ⟨hh, ht, Nat.le_of_eq hj.sum⟩
  slice := fun ⟨hi, hc⟩ => ⟨hi, hc.inside⟩

/-- From a position on, the checks of the way down to a run all succeed. -/
theorem ByteSeq.Tidy.checkedRunAt_eq {s : ByteSeq} (h : s.Tidy allowed) {pos stop : Nat}
    (hpos : pos < stop) (hstop : stop ≤ s.length) :
    s.checkedRunAt pos stop = some (s.runAt pos stop) := by
  induction s generalizing pos stop with
  | empty => rfl
  | array bs => exact Bytes.checkedWindow_of_le (Nat.le_of_lt hpos) hstop
  | text t => exact Bytes.checkedWindow_of_le (Nat.le_of_lt hpos) hstop
  | buffer v =>
    have hinside := h.2.inside
    have hword := h.2.word
    have hlast : stop ≤ v.length := hstop
    have hadd : checkedAdd v.offset pos = some (v.offset + pos) := checkedAdd_of_le (by omega)
    have hsub : checkedSub stop pos = some (stop - pos) := checkedSub_of_le (by omega)
    rw [checkedRunAt, hadd, hsub]
    rfl
  | concat head tail n ihh iht =>
    obtain ⟨hh, ht, hj⟩ := h
    have hsum := hj.sum
    have hlast : stop ≤ n := hstop
    rw [checkedRunAt, runAt]
    by_cases hp : pos < head.length
    · rw [if_pos hp, if_pos hp]
      exact ihh hh (Nat.lt_min.mpr ⟨hpos, hp⟩) (Nat.min_le_right _ _)
    · have hsub : checkedSub pos head.length = some (pos - head.length) :=
        checkedSub_of_le (by omega)
      have hsub' : checkedSub stop head.length = some (stop - head.length) :=
        checkedSub_of_le (by omega)
      rw [if_neg hp, if_neg hp, hsub, hsub']
      exact iht ht (by omega) (by omega)
  | slice inner offset n ih =>
    obtain ⟨hi, hc⟩ := h
    have hinside := hc.inside
    have hlen := hi.length_le
    have hlast : stop ≤ n := hstop
    have hadd : checkedAdd pos offset = some (pos + offset) := checkedAdd_of_le (by omega)
    have hadd' : checkedAdd stop offset = some (stop + offset) := checkedAdd_of_le (by omega)
    rw [checkedRunAt, hadd, hadd']
    exact ih hi (by omega) (by omega)

namespace Frame

theorem checkedView_eq {f : Frame} (h : f.Inside (ByteSeq.Tidy allowed)) :
    f.checkedView = some f.view := by
  obtain ⟨seq, start, stop⟩ := f
  obtain ⟨hs, hstop⟩ := h
  by_cases hr : stop ≤ start
  · simp only [checkedView, view, hr, if_true]
  have hlen := hs.length_le
  simp only [checkedView, view, hr, if_false]
  cases seq with
  | empty => rfl
  | array bs =>
    have hwin := Bytes.checkedWindow_of_le (Nat.le_of_not_le hr) hstop
    simp only [hwin, Option.map_some]
  | text t =>
    have hwin := Bytes.checkedWindow_of_le (Nat.le_of_not_le hr) hstop
    simp only [hwin, Option.map_some]
  | buffer v =>
    have hinside := hs.2.inside
    have hword := hs.2.word
    have hlast : stop ≤ v.length := hstop
    have hadd : checkedAdd v.offset start = some (v.offset + start) := checkedAdd_of_le (by omega)
    have hsub : checkedSub stop start = some (stop - start) := checkedSub_of_le (by omega)
    have hnext : ∀ chunk : Bytes, checkedAdd start (chunk.take (stop - start)).length =
        some (start + (chunk.take (stop - start)).length) := by
      intro chunk
      have := List.length_take_le (stop - start) chunk
      exact checkedAdd_of_le (by omega)
    simp only [hadd, hsub, hnext, Option.bind_eq_bind, Option.bind_some]
    rfl
  | concat head tail n =>
    have htail : checkedTail ⟨.concat head tail n, start, stop⟩ tail head.length =
        some (if head.length < stop then
          [⟨tail, max start head.length - head.length, stop - head.length⟩] else []) := by
      unfold checkedTail
      by_cases hp : head.length < stop
      · have hsub := checkedSub_of_le (Nat.le_max_right start head.length)
        have hsub' := checkedSub_of_le (Nat.le_of_lt hp)
        simp only [hp, if_true, hsub, hsub', Option.bind_eq_bind, Option.bind_some]
        rfl
      · simp only [hp, if_false]
    simp only [htail, Option.bind_eq_bind, Option.bind_some]
    rfl
  | slice inner offset n =>
    obtain ⟨hi, hc⟩ := hs
    have hinside := hc.inside
    have hinner := hi.length_le
    have hlast : stop ≤ n := hstop
    have hadd : checkedAdd offset start = some (offset + start) := checkedAdd_of_le (by omega)
    have hadd' : checkedAdd offset stop = some (offset + stop) := checkedAdd_of_le (by omega)
    simp only [hadd, hadd', Option.bind_eq_bind, Option.bind_some]
    rfl

theorem Inside.answering {f : Frame} (h : f.Inside (ByteSeq.Tidy fun _ => True))
    (answer : Nat → Bytes) : (f.answering answer).Inside (ByteSeq.Tidy fun _ => True) := by
  obtain ⟨seq, start, stop⟩ := f
  obtain ⟨hs, hstop⟩ := h
  cases seq with
  | buffer v => exact ⟨⟨trivial, hs.2.inside, hs.2.word⟩, hstop⟩
  | _ => exact ⟨hs, hstop⟩

end Frame

namespace Chunks

theorem inside_of_reaches {ch : Chunks} {g : Frame}
    (h : ∀ f ∈ ch, f.Inside (ByteSeq.Tidy fun _ => True)) (hg : ch.Reaches g) :
    g.Inside (ByteSeq.Tidy fun _ => True) := by
  induction hg with
  | head f fs answer => exact (h f List.mem_cons_self).answering answer
  | @rest f g fs answer next ih =>
    apply ih
    intro f' hf'
    rcases List.mem_append.mp hf' with hnew | hold
    · have hf := (h f List.mem_cons_self).answering answer
      exact Frame.inside_of_view ByteSeq.passesDown_tidy hf f' hnew
    · exact h f' (List.mem_cons_of_mem f hold)

end Chunks

namespace ByteSeq

/-- Neither looking for the run at a position nor a traversal of a range leaves the words. -/
structure ReadsInWords (s : ByteSeq) : Prop where
  chunkAt : ∀ pos, pos < s.length → s.checkedRunAt pos s.length = some (s.chunkAt pos)
  view : ∀ start stop f, stop ≤ s.length → Chunks.Reaches [⟨s, start, stop⟩] f →
    f.checkedView = some f.view

theorem Tidy.readsInWords {s : ByteSeq} (h : s.Tidy allowed) : s.ReadsInWords where
  chunkAt pos hpos := h.checkedRunAt_eq hpos (Nat.le_refl _)
  view start stop f hstop hf := by
    have htidy : s.Tidy fun _ => True := h.mono fun _ _ => trivial
    have hstart : ∀ g ∈ [Frame.mk s start stop], g.Inside (Tidy fun _ => True) := by
      intro g hg
      rw [List.mem_singleton.mp hg]
      exact ⟨htidy, hstop⟩
    exact Frame.checkedView_eq (Chunks.inside_of_reaches hstart hf)

/-- Whatever the operations build, over any buffers, is tidy at every node, and no sum, difference
or range leaves the words when it is read. -/
theorem built_shape {s : ByteSeq} (h : Built allowed s) : s.Tidy allowed ∧ s.ReadsInWords :=
  ⟨h.tidy, h.tidy.readsInWords⟩

/-- A concatenation of `wordMax` bytes over a buffer that has three of those that it claims. -/
def longest : ByteSeq :=
  .concat (.ofBuffer (.claiming (wordMax - 1) [[1, 2], [3]])) (.array [7]) wordMax

theorem built_shape_of_longest :
    (slice longest 2 (wordMax - 2)).Tidy (fun _ => True) ∧
      (slice longest 2 (wordMax - 2)).ReadsInWords ∧
      (slice longest 2 (wordMax - 2)).checkedRunAt (wordMax - 3) (wordMax - 2) = some [7] := by
  have hsize : (Buffer.claiming (wordMax - 1) [[1, 2], [3]]).size ≤ wordMax := by decide
  have hlength : ([7] : Bytes).length ≤ wordMax := by decide
  have hrope : Built (fun _ => True) longest :=
    .tryConcat (.buffer trivial hsize) (.array hlength) rfl
  have hcut : longest.subSeq 1 wordMax = .ok (slice longest 1 (wordMax - 1)) := rfl
  have hcut' : (slice longest 1 (wordMax - 1)).subSeq 1 (wordMax - 1) =
      .ok (slice longest 2 (wordMax - 2)) := rfl
  have hrange := Built.subSeq (Built.subSeq hrope hcut) hcut'
  exact ⟨(built_shape hrange).1, (built_shape hrange).2, rfl⟩

end ByteSeq
end StoreClient

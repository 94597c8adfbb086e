import StoreClient.ByteSeq.Chunks
import Mathlib.Data.List.Basic

/-! # What a sequence holds

`ByteSeq.content` is the byte list that a sequence stands for, by recursion on its shape.  A
sequence is `Sound` if its buffers keep their promises, the lengths that it stores are right and
fit a word, and every range lies inside what it is a range of.

The traversal of a sound sequence shows its content: opening a frame splits its range in order
(`Frame.content_view`) and leaves only frames that lie inside their sequences
(`Frame.inside_of_view`), so the runs end to end are the content (`Chunks.flatten_toList`), and no
frame that is ever opened reaches past its sequence (`Chunks.sound_of_opens`). -/

namespace StoreClient

/-! ### Windows -/

namespace Bytes

theorem window_of_le {start stop : Nat} (bs : Bytes) (h : stop ≤ start) :
    bs.window start stop = [] := by
  rw [window, Nat.sub_eq_zero_of_le h, List.take_zero]

theorem window_append_window (bs : Bytes) {a b c : Nat} (hab : a ≤ b) (hbc : b ≤ c) :
    bs.window a b ++ bs.window b c = bs.window a c := by
  have hd : bs.drop b = (bs.drop a).drop (b - a) := by
    rw [List.drop_drop]
    congr 1
    omega
  have hn : c - a = (b - a) + (c - b) := by omega
  rw [window, window, window, hn, List.take_add, hd]

theorem window_append (as bs : Bytes) (start stop : Nat) :
    (as ++ bs).window start stop =
      as.window start (min stop as.length) ++
        bs.window (start - as.length) (stop - as.length) := by
  have hl : (as.drop start).take (stop - start) =
      (as.drop start).take (min stop as.length - start) := by
    rw [List.take_eq_take_iff, List.length_drop]
    omega
  have hr : stop - start - (as.drop start).length = stop - as.length - (start - as.length) := by
    rw [List.length_drop]
    omega
  rw [window, window, window, List.drop_append, List.take_append, hl, hr]

theorem eq_window_of_prefix {bs c : Bytes} {pos : Nat} (h : c <+: bs.drop pos) :
    c = bs.window pos (pos + c.length) := by
  rw [window, Nat.add_sub_cancel_left]
  exact List.prefix_iff_eq_take.mp h

end Bytes

/-! ### Buffers -/

namespace Buffer

/-- The bytes that a buffer shows, one at each position. -/
def bytes (b : Buffer) : Bytes := (List.range b.size).map fun pos => (b.chunkAt pos).headD 0

theorem Holds.bytes_eq {b : Buffer} {data : Bytes} (h : b.Holds data) : b.bytes = data := by
  apply List.ext_getElem
  · rw [bytes, List.length_map, List.length_range, h.size_eq]
  · intro pos h₁ h₂
    have hpos : pos < b.size := by
      rw [h.size_eq]
      exact h₂
    obtain ⟨x, xs, hx⟩ := List.exists_cons_of_ne_nil (h.chunk_ne_nil pos hpos)
    obtain ⟨rest, hr⟩ := h.chunk_prefix pos hpos
    rw [hx, List.cons_append, List.drop_eq_getElem_cons h₂] at hr
    simp only [bytes, List.getElem_map, List.getElem_range, hx, List.headD_cons]
    exact (List.cons.inj hr).1

theorem Lawful.holds {b : Buffer} (h : b.Lawful) : b.Holds b.bytes := by
  obtain ⟨data, hd⟩ := h
  rw [hd.bytes_eq]
  exact hd

end Buffer

/-! ### Sequences -/

namespace ByteSeq

/-- The byte list that a sequence stands for. -/
def content : ByteSeq → Bytes
  | empty => []
  | array bs => bs
  | text t => t.bytes
  | buffer v => v.buffer.bytes.window v.offset (v.offset + v.length)
  | concat head tail _ => head.content ++ tail.content
  | slice inner offset n => inner.content.window offset (offset + n)

/-- Buffers keep their promises, lengths are right and fit a word, and ranges lie inside what they
are ranges of. -/
def Sound : ByteSeq → Prop
  | empty => True
  | array bs => bs.length ≤ wordMax
  | text t => t.bytes.length ≤ wordMax
  | buffer v =>
    v.buffer.Lawful ∧ v.offset + v.length ≤ v.buffer.size ∧ v.buffer.size ≤ wordMax
  | concat head tail n => head.Sound ∧ tail.Sound ∧ n = head.length + tail.length ∧ n ≤ wordMax
  | slice inner offset n => inner.Sound ∧ offset + n ≤ inner.length

theorem Sound.length_content {s : ByteSeq} (h : s.Sound) : s.content.length = s.length := by
  induction s with
  | empty => rfl
  | array bs => rfl
  | text t => rfl
  | buffer v =>
    obtain ⟨hb, hv, _⟩ := h
    rw [hb.holds.size_eq] at hv
    rw [content, Bytes.length_window_of_le hv, length_buffer, Nat.add_sub_cancel_left]
  | concat head tail n ihh iht =>
    obtain ⟨hh, ht, hn, _⟩ := h
    rw [content, List.length_append, ihh hh, iht ht, length_concat, hn]
  | slice inner offset n ih =>
    obtain ⟨hi, hr⟩ := h
    rw [← ih hi] at hr
    rw [content, Bytes.length_window_of_le hr, length_slice, Nat.add_sub_cancel_left]

theorem Sound.length_le {s : ByteSeq} (h : s.Sound) : s.length ≤ wordMax := by
  induction s with
  | empty => exact Nat.zero_le _
  | array bs => exact h
  | text t => exact h
  | buffer v =>
    obtain ⟨_, hv, hw⟩ := h
    show v.length ≤ wordMax
    omega
  | concat head tail n ihh iht => exact h.2.2.2
  | slice inner offset n ih =>
    have hi := ih h.1
    have hr := h.2
    show n ≤ wordMax
    omega

theorem Sound.contiguous?_eq {s : ByteSeq} {bs : Bytes} (h : s.Sound)
    (hc : s.contiguous? = some bs) : bs = s.content := by
  cases s with
  | empty => exact (Option.some.inj hc).symm
  | array as => exact (Option.some.inj hc).symm
  | text t => exact (Option.some.inj hc).symm
  | buffer v =>
    obtain ⟨all, ha, rfl⟩ := Option.map_eq_some_iff.mp hc
    rw [h.1.holds.contiguous all ha]
    rfl
  | concat head tail n => simp [contiguous?] at hc
  | slice inner offset n => simp [contiguous?] at hc

/-- A property that the parts of a sequence share with it, and under which ranges lie inside. -/
structure PassesDown (P : ByteSeq → Prop) : Prop where
  concat : ∀ {head tail : ByteSeq} {n : Nat},
    P (.concat head tail n) → P head ∧ P tail ∧ n ≤ head.length + tail.length
  slice : ∀ {inner : ByteSeq} {offset n : Nat},
    P (.slice inner offset n) → P inner ∧ offset + n ≤ inner.length

theorem passesDown_sound : PassesDown Sound where
  concat := fun ⟨hh, ht, hn, _⟩ => ⟨hh, ht, Nat.le_of_eq hn⟩
  slice := id

end ByteSeq

/-! ### Frames -/

namespace Frame

/-- The bytes of a range still to be visited. -/
def content (f : Frame) : Bytes := f.seq.content.window f.start f.stop

def Inside (P : ByteSeq → Prop) (f : Frame) : Prop := P f.seq ∧ f.stop ≤ f.seq.length

def Sound (f : Frame) : Prop := f.seq.Sound ∧ f.stop ≤ f.seq.length

end Frame

namespace Chunks

def content (ch : Chunks) : Bytes := ch.flatMap Frame.content

def Sound (ch : Chunks) : Prop := ∀ f ∈ ch, f.Sound

@[simp] theorem content_nil : content [] = [] := rfl
@[simp] theorem content_cons (f : Frame) (ch : Chunks) :
    content (f :: ch) = f.content ++ content ch := rfl
@[simp] theorem content_append (a b : Chunks) : content (a ++ b) = content a ++ content b :=
  List.flatMap_append

theorem sound_append {a b : Chunks} (ha : Sound a) (hb : Sound b) : Sound (a ++ b) := by
  intro f hf
  rcases List.mem_append.mp hf with h | h
  · exact ha f h
  · exact hb f h

theorem Sound.tail {f : Frame} {ch : Chunks} (h : Sound (f :: ch)) : Sound ch :=
  fun g hg => h g (List.mem_cons_of_mem f hg)

end Chunks

namespace Frame

def View.rest : View → Chunks
  | .run _ frames => frames
  | .parts frames => frames

def View.content : View → Bytes
  | .run chunk frames => chunk ++ Chunks.content frames
  | .parts frames => Chunks.content frames

theorem View.content_ofRun {chunk : Bytes} {frames : List Frame}
    (h : chunk = [] → Chunks.content frames = []) :
    (View.ofRun chunk frames).content = chunk ++ Chunks.content frames := by
  unfold ofRun
  cases chunk with
  | nil =>
    rw [h rfl]
    rfl
  | cons b bs => rfl

theorem View.mem_rest_ofRun {chunk : Bytes} {frames : List Frame} {g : Frame}
    (h : g ∈ (View.ofRun chunk frames).rest) : g ∈ frames := by
  unfold ofRun at h
  split at h
  · simp [rest] at h
  · exact h

/-- A run of a buffer, cut at the end of the frame, and then the rest of the frame. -/
theorem content_view_buffer {v : BufferView} {start stop : Nat} (hs : (ByteSeq.buffer v).Sound)
    (hstop : stop ≤ v.length) (hr : start < stop) :
    (view ⟨.buffer v, start, stop⟩).content = content ⟨.buffer v, start, stop⟩ := by
  obtain ⟨hb, hv, _⟩ := hs
  obtain ⟨chunk, hc⟩ : ∃ chunk, chunk = (v.buffer.chunkAt (v.offset + start)).take (stop - start) :=
    ⟨_, rfl⟩
  obtain ⟨next, hn⟩ : ∃ next : List Frame, next =
      if start + chunk.length < stop then [⟨.buffer v, start + chunk.length, stop⟩] else [] :=
    ⟨_, rfl⟩
  have hview : view ⟨.buffer v, start, stop⟩ = .ofRun chunk next := by
    simp only [view, Nat.not_le.mpr hr, if_false, width, ← hc, ← hn]
  have hpos : v.offset + start < v.buffer.size := by omega
  have hne : chunk ≠ [] := by
    rw [hc, ne_eq, List.take_eq_nil_iff, not_or]
    exact ⟨by omega, hb.holds.chunk_ne_nil _ hpos⟩
  have hlen : chunk.length ≤ stop - start := by
    rw [hc]
    exact List.length_take_le _ _
  have hchunk : chunk = v.buffer.bytes.window (v.offset + start)
      (v.offset + start + chunk.length) := by
    apply Bytes.eq_window_of_prefix
    rw [hc]
    exact (List.take_prefix _ _).trans (hb.holds.chunk_prefix _ hpos)
  have hnext : Chunks.content next =
      v.buffer.bytes.window (v.offset + start + chunk.length) (v.offset + stop) := by
    rw [hn]
    split
    · have hv' : v.offset + stop ≤ v.offset + v.length := by omega
      show (v.buffer.bytes.window v.offset (v.offset + v.length)).window _ stop ++ [] = _
      rw [List.append_nil, Bytes.window_window _ hv', Nat.add_assoc]
    · exact (Bytes.window_of_le _ (by omega)).symm
  calc (view ⟨.buffer v, start, stop⟩).content
      = chunk ++ Chunks.content next := by
        rw [hview, View.content_ofRun fun e => absurd e hne]
    _ = v.buffer.bytes.window (v.offset + start) (v.offset + start + chunk.length) ++
          v.buffer.bytes.window (v.offset + start + chunk.length) (v.offset + stop) := by
        rw [hnext, ← hchunk]
    _ = v.buffer.bytes.window (v.offset + start) (v.offset + stop) := by
        rw [Bytes.window_append_window _ (by omega) (by omega)]
    _ = content ⟨.buffer v, start, stop⟩ := by
        show _ = (v.buffer.bytes.window v.offset (v.offset + v.length)).window start stop
        rw [Bytes.window_window _ (by omega)]

/-- A range of a concatenation is a range of each of its parts. -/
theorem content_view_concat {head tail : ByteSeq} {n start stop : Nat} (hh : head.Sound)
    (hr : start < stop) :
    (view ⟨.concat head tail n, start, stop⟩).content =
      content ⟨.concat head tail n, start, stop⟩ := by
  have hl : Chunks.content
      (if start < head.length then [⟨head, start, min stop head.length⟩] else []) =
        head.content.window start (min stop head.length) := by
    split
    · exact List.append_nil _
    · exact (Bytes.window_of_le _ (by omega)).symm
  have ht : Chunks.content
      (if head.length < stop then
        [⟨tail, max start head.length - head.length, stop - head.length⟩] else []) =
        tail.content.window (start - head.length) (stop - head.length) := by
    split
    · have e : max start head.length - head.length = start - head.length := by omega
      rw [e]
      exact List.append_nil _
    · exact (Bytes.window_of_le _ (by omega)).symm
  simp only [view, Nat.not_le.mpr hr, if_false]
  show Chunks.content (_ ++ _) = (head.content ++ tail.content).window start stop
  rw [Bytes.window_append, hh.length_content, Chunks.content_append, hl, ht]

/-- Opening a frame splits its range in order. -/
theorem content_view {f : Frame} (h : f.Sound) : f.view.content = f.content := by
  obtain ⟨seq, start, stop⟩ := f
  obtain ⟨hs, hstop⟩ := h
  by_cases hr : stop ≤ start
  · simp only [view, hr, if_true]
    exact (Bytes.window_of_le _ hr).symm
  · cases seq with
    | empty => simp [view, hr, View.content, content, ByteSeq.content, Bytes.window]
    | array bs =>
      simp only [view, hr, if_false]
      exact (View.content_ofRun fun _ => rfl).trans (List.append_nil _)
    | text t =>
      simp only [view, hr, if_false]
      exact (View.content_ofRun fun _ => rfl).trans (List.append_nil _)
    | buffer v => exact content_view_buffer hs hstop (Nat.not_le.mp hr)
    | concat head tail n => exact content_view_concat hs.1 (Nat.not_le.mp hr)
    | slice inner offset n =>
      have hn : offset + stop ≤ offset + n := Nat.add_le_add_left hstop offset
      simp only [view, hr, if_false]
      show inner.content.window (offset + start) (offset + stop) ++ [] =
        (inner.content.window offset (offset + n)).window start stop
      rw [List.append_nil, Bytes.window_window _ hn]

theorem inside_of_view {P : ByteSeq → Prop} (hP : ByteSeq.PassesDown P) {f : Frame}
    (h : f.Inside P) : ∀ g ∈ f.view.rest, g.Inside P := by
  obtain ⟨seq, start, stop⟩ := f
  obtain ⟨hs, hstop⟩ := h
  intro g hg
  by_cases hr : stop ≤ start
  · simp [view, hr, View.rest] at hg
  · simp only [view, hr, if_false] at hg
    cases seq with
    | empty => simp [View.rest] at hg
    | array bs => exact absurd (View.mem_rest_ofRun hg) (List.not_mem_nil)
    | text t => exact absurd (View.mem_rest_ofRun hg) (List.not_mem_nil)
    | buffer v =>
      have hg' := View.mem_rest_ofRun hg
      split at hg'
      · rw [List.mem_singleton] at hg'
        rw [hg']
        exact ⟨hs, hstop⟩
      · simp at hg'
    | concat head tail n =>
      obtain ⟨hh, ht, hn⟩ := hP.concat hs
      rcases List.mem_append.mp hg with h | h
      · split at h
        · rw [List.mem_singleton] at h
          rw [h]
          exact ⟨hh, Nat.min_le_right _ _⟩
        · simp at h
      · split at h
        · rw [List.mem_singleton] at h
          rw [h]
          refine ⟨ht, ?_⟩
          have hstop' : stop ≤ n := hstop
          show stop - head.length ≤ tail.length
          omega
        · simp at h
    | slice inner offset n =>
      rw [View.rest, List.mem_singleton] at hg
      rw [hg]
      obtain ⟨hi, hin⟩ := hP.slice hs
      refine ⟨hi, ?_⟩
      have hstop' : stop ≤ n := hstop
      show offset + stop ≤ inner.length
      omega

theorem sound_of_view {f : Frame} (h : f.Sound) : Chunks.Sound f.view.rest :=
  inside_of_view ByteSeq.passesDown_sound h

end Frame

/-! ### Traversals -/

namespace Chunks

theorem Sound.parts {f : Frame} {ps fs : Chunks} (h : Sound (f :: fs)) (hv : f.view = .parts ps) :
    Sound (ps ++ fs) ∧ content (ps ++ fs) = content (f :: fs) := by
  have hf := h f List.mem_cons_self
  have hs := Frame.sound_of_view hf
  have hc := Frame.content_view hf
  rw [hv] at hs hc
  refine ⟨sound_append hs h.tail, ?_⟩
  rw [content_append, content_cons, ← hc]
  rfl

theorem Sound.run {f : Frame} {chunk : Bytes} {rest fs : Chunks} (h : Sound (f :: fs))
    (hv : f.view = .run chunk rest) :
    Sound (rest ++ fs) ∧ content (f :: fs) = chunk ++ content (rest ++ fs) := by
  have hf := h f List.mem_cons_self
  have hs := Frame.sound_of_view hf
  have hc := Frame.content_view hf
  rw [hv] at hs hc
  refine ⟨sound_append hs h.tail, ?_⟩
  rw [content_append, content_cons, ← hc, ← List.append_assoc]
  rfl

theorem content_of_next?_eq_none {ch : Chunks} (h : ch.Sound) (hn : ch.next? = none) :
    ch.content = [] := by
  fun_induction next? ch with
  | case1 => rfl
  | case2 f fs chunk rest hv => simp at hn
  | case3 f fs ps hv ih =>
    obtain ⟨hs, hc⟩ := h.parts hv
    rw [← hc]
    exact ih hs hn

theorem content_of_next?_eq_some {ch r : Chunks} {c : Bytes} (h : ch.Sound)
    (hn : ch.next? = some (c, r)) : ch.content = c ++ r.content ∧ r.Sound := by
  fun_induction next? ch with
  | case1 => simp at hn
  | case2 f fs chunk rest hv =>
    obtain ⟨hs, hc⟩ := h.run hv
    simp only [Option.some.injEq, Prod.mk.injEq] at hn
    obtain ⟨rfl, rfl⟩ := hn
    exact ⟨hc, hs⟩
  | case3 f fs ps hv ih =>
    obtain ⟨hs, hc⟩ := h.parts hv
    rw [← hc]
    exact ih hs hn

theorem flatten_toList {ch : Chunks} (h : ch.Sound) : ch.toList.flatten = ch.content := by
  induction ch using induction with
  | none ch hn =>
    rw [toList_of_none hn, content_of_next?_eq_none h hn]
    rfl
  | some ch c r hn ih =>
    obtain ⟨hc, hr⟩ := content_of_next?_eq_some h hn
    rw [toList_of_some hn, List.flatten_cons, ih hr, hc]

/-- A traversal of the frames comes to open a frame. -/
inductive Opens : Chunks → Frame → Prop
  | head (f : Frame) (fs : Chunks) : Opens (f :: fs) f
  | parts {f g : Frame} {ps fs : Chunks} (view : f.view = .parts ps) (rest : Opens (ps ++ fs) g) :
    Opens (f :: fs) g
  | run {f g : Frame} {chunk : Bytes} {next fs : Chunks} (view : f.view = .run chunk next)
    (rest : Opens (next ++ fs) g) : Opens (f :: fs) g

/-- No frame that a traversal opens reaches past its sequence. -/
theorem sound_of_opens {ch : Chunks} {g : Frame} (h : ch.Sound) (ho : ch.Opens g) : g.Sound := by
  induction ho with
  | head f fs => exact h f List.mem_cons_self
  | parts view rest ih => exact ih (h.parts view).1
  | run view rest ih => exact ih (h.run view).1

end Chunks

namespace ByteSeq

theorem Sound.chunks {s : ByteSeq} (h : s.Sound) : s.chunks.Sound := by
  intro f hf
  rw [List.mem_singleton.mp hf]
  exact ⟨h, Nat.le_refl _⟩

theorem Sound.content_chunks {s : ByteSeq} (h : s.Sound) : s.chunks.content = s.content := by
  show s.content.window 0 s.length ++ [] = s.content
  rw [List.append_nil, ← h.length_content, Bytes.window_zero_length]

theorem Sound.flatten_chunks {s : ByteSeq} (h : s.Sound) :
    s.chunks.toList.flatten = s.content := by
  rw [Chunks.flatten_toList h.chunks, h.content_chunks]

theorem Sound.toBytes_eq {s : ByteSeq} (h : s.Sound) : s.toBytes = s.content := by
  rw [toBytes, Chunks.bytes_eq_flatten, h.flatten_chunks]

end ByteSeq
end StoreClient
